import ScreenDoc.Proofs.Dispatch.Steps

/-!
# Effects

What an action does that is no sequence is one of four things: it writes a cell, it logs, it calls
the application, or it warns and changes nothing. Which of them depends on the handlers, on the
registry and, where a boolean is turned over, on what is in the cells.
-/

namespace ScreenDoc

variable {σ : Type} {app : Application σ} {w : World} {id : DispatcherId} {states : Registry}

inductive Effect where
  | write (cell : CellId) (value : StateValue)
  | log (message : String)
  | call (customType : String) (params : Json.Map)
  | warn (warning : Warning)

def Action.writtenKey? : Action → Option String
  | .setState key _ => some key
  | .toggleState key => some key
  | _ => none

def Action.effect? (handles : String → Bool) (states : Registry) (cells : Cells) :
    Action → Option Effect
  | .setState key value =>
    match KeyMap.get? states key with
    | none => some (.warn (.noHost "SetState" key))
    | some cell => some (.write cell (.ofJson value.json))
  | .toggleState key =>
    match KeyMap.get? states key with
    | none => some (.warn (.noHost "ToggleState" key))
    | some cell =>
      match (cells.get? cell).getD .null with
      | .bool flag => some (.write cell (.bool !flag))
      | value => some (.warn (.notBoolean key value.typeName))
  | .log message => some (.log message)
  | .sequence _ => none
  | .custom customType params =>
    if handles customType then some (.call customType params)
    else some (.warn (.noHandler customType))

/-- The world right after an effect; a call has only been noted. -/
def World.apply (w : World) : Effect → World
  | .write cell value => { w with cells := w.cells.set cell value }
  | .log message => w.record (.log message)
  | .call customType params => w.note (.custom customType params)
  | .warn warning => w.warn warning

/-- What an effect leaves to do: the application reacts to a call. -/
def Effect.tasks (app : Application σ) : Effect → List (Task σ)
  | .call customType params =>
    [.react fun w state => app.respond w state (.custom customType params)]
  | _ => []

namespace Action

variable {handles : String → Bool} {cells : Cells} {action : Action}

theorem exists_effect? (handles : String → Bool) (states : Registry) (cells : Cells)
    (h : ∀ actions, action ≠ .sequence actions) :
    ∃ effect, action.effect? handles states cells = some effect := by
  rw [← Option.isSome_iff_exists]
  cases action with
  | setState key value =>
    simp only [effect?]
    split <;> rfl
  | toggleState key =>
    simp only [effect?]
    split
    · rfl
    · split <;> rfl
  | log message => rfl
  | sequence actions => exact absurd rfl (h actions)
  | custom customType params =>
    simp only [effect?]
    split <;> rfl

theorem exists_key_of_write {cell : CellId} {value : StateValue}
    (h : action.effect? handles states cells = some (.write cell value)) :
    ∃ key, action.writtenKey? = some key ∧ KeyMap.get? states key = some cell := by
  cases action with
  | setState key _ =>
    refine ⟨key, rfl, ?_⟩
    simp only [effect?] at h
    split at h
    · cases h
    · cases h
      assumption
  | toggleState key =>
    refine ⟨key, rfl, ?_⟩
    simp only [effect?] at h
    split at h
    · cases h
    · split at h
      · cases h
        assumption
      · cases h
  | log message => cases h
  | sequence actions => cases h
  | custom customType params =>
    simp only [effect?] at h
    split at h <;> cases h

theorem cases_of_write {cell : CellId} {value : StateValue}
    (h : action.effect? handles states cells = some (.write cell value)) :
    (∃ key j, action = .setState key j ∧ StateValue.ofJson j.json = value) ∨
      ∃ key flag, action = .toggleState key ∧ cells.get? cell = some (.bool flag) ∧
        StateValue.bool (!flag) = value := by
  cases action with
  | setState key j =>
    simp only [effect?] at h
    split at h
    · cases h
    · cases h
      exact .inl ⟨key, j, rfl, rfl⟩
  | toggleState key =>
    simp only [effect?] at h
    split at h
    · cases h
    · split at h
      · rename_i hflag
        cases h
        refine .inr ⟨key, _, rfl, ?_, rfl⟩
        cases hvalue : cells.get? cell with
        | none => simp [hvalue] at hflag
        | some value => simpa [hvalue] using hflag
      · cases h
  | log message => cases h
  | sequence actions => cases h
  | custom customType params =>
    simp only [effect?] at h
    split at h <;> cases h

end Action

theorem World.enter_of_effect? {action : Action} {effect : Effect}
    (h : action.effect? app.handles states w.cells = some effect) :
    w.enter app id states action = (w.apply effect, effect.tasks app) := by
  cases action with
  | setState key value =>
    cases hcell : KeyMap.get? states key <;> simp only [Action.effect?, hcell] at h <;> cases h <;>
      simp [enter, setState, hcell, apply, Effect.tasks]
  | toggleState key =>
    cases hcell : KeyMap.get? states key with
    | none =>
      simp only [Action.effect?, hcell] at h
      cases h
      simp [enter, toggleState, hcell, apply, Effect.tasks]
    | some cell =>
      cases hvalue : (w.cells.get? cell).getD .null <;>
        simp only [Action.effect?, hcell, hvalue] at h <;> cases h <;>
        simp [enter, toggleState, hcell, hvalue, StateValue.asBool?, apply, Effect.tasks]
  | log message =>
    cases h
    rfl
  | sequence actions => cases h
  | custom customType params =>
    simp only [Action.effect?] at h
    by_cases hhandles : app.handles customType
    · rw [if_pos hhandles] at h
      cases h
      exact enter_of_handles hhandles id states w params
    · rw [if_neg hhandles] at h
      cases h
      exact enter_of_not_handles hhandles id states w params

theorem World.cells_enter (app : Application σ) (id : DispatcherId) (states : Registry) (w : World)
    (action : Action) :
    (w.enter app id states action).1.cells = w.cells ∨
      ∃ cell value, action.effect? app.handles states w.cells = some (.write cell value) ∧
        (w.enter app id states action).1.cells = w.cells.set cell value := by
  by_cases hsequence : ∃ actions, action = .sequence actions
  · obtain ⟨actions, rfl⟩ := hsequence
    exact .inl rfl
  · rw [not_exists] at hsequence
    obtain ⟨effect, heffect⟩ := Action.exists_effect? app.handles states w.cells
      hsequence
    rw [enter_of_effect? heffect]
    cases effect with
    | write cell value => exact .inr ⟨cell, value, heffect, rfl⟩
    | log message => exact .inl rfl
    | call customType params => exact .inl rfl
    | warn warning => exact .inl rfl

end ScreenDoc
