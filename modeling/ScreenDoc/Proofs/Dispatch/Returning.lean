import ScreenDoc.Proofs.Dispatch.Grouping

/-!
# Calls that return

Actions add nothing to a run that could keep it from ending: a sequence is a finite list, and every
other action but a call is over at once. So an action comes to an end, with or without a limit on
depth, if the handlers that it calls do.
-/

namespace ScreenDoc

variable {σ : Type} {app : Application σ} {m : Machine σ} {id : DispatcherId}

/-- The handlers that the action calls come to an end. -/
def Action.Returns (app : Application σ) (action : Action) : Prop :=
  ∀ customType params, .custom customType params ∈ action.leaves → app.handles customType →
    ∀ m : Machine σ, ∃ m', m.Undergoes app (.call customType params) m'

/-- No part of the action is left to a handler. -/
def Action.Plain (action : Action) : Prop :=
  ∀ customType params, .custom customType params ∉ action.leaves

theorem Action.Plain.returns {action : Action} (h : action.Plain) (app : Application σ) :
    action.Returns app :=
  fun customType params hmem => absurd hmem (h customType params)

private theorem Action.Returns.of_mem {action : Action} {actions : List Action}
    (h : (sequence actions).Returns app) (haction : action ∈ actions) : action.Returns app := by
  intro customType params hleaf
  refine h customType params ?_
  rw [leaves_sequence]
  exact List.mem_flatMap_of_mem haction hleaf

private theorem Action.call_of_effect? {handles : String → Bool} {states : Registry} {cells : Cells}
    {action : Action} {customType : String} {params : Json.Map}
    (h : action.effect? handles states cells = some (.call customType params)) :
    action = .custom customType params ∧ handles customType := by
  cases action with
  | setState key value =>
    simp only [effect?] at h
    split at h <;> cases h
  | toggleState key =>
    simp only [effect?] at h
    split at h
    · cases h
    · split at h <;> cases h
  | log message => cases h
  | sequence actions => cases h
  | custom customType' params' =>
    simp only [effect?] at h
    split at h
    · cases h
      exact ⟨rfl, ‹_›⟩
    · cases h

namespace Moment

theorem settles_of_enter {action : Action}
    (h : ∀ (states : Registry) (m : Machine σ),
      Settles app ⟨{ m with world := (m.world.enter app id states action).1 },
        (m.world.enter app id states action).2⟩)
    (m : Machine σ) : Settles app ⟨m, [.carryOut (.dispatch id action)]⟩ := by
  cases hd : m.dispatchers[id]? with
  | none => exact ⟨m, .first (.absent hd) .refl, rfl⟩
  | some d =>
    cases hover : d.maxDepth.filter (· < d.depth + 1) with
    | some limit =>
      exact ⟨{ m with world := m.world.warn (.dropped action.tag (d.depth + 1) limit) },
        .first (.dropped hd hover) .refl, rfl⟩
    | none =>
      obtain ⟨m', hleads, hm'⟩ := h d.states (m.setDepth id (d.depth + 1))
      exact ⟨m'.setDepth id d.depth,
        .first (.entered hd hover) (hleads.seq (.first .leave .refl)),
        Machine.setDepth_back hd hm'⟩

/-- An action settles if the handlers that it calls come to an end. -/
theorem settles_action {action : Action} (haction : action.Returns app) (m : Machine σ) :
    Settles app ⟨m, [.carryOut (.dispatch id action)]⟩ := by
  induction action using Action.induction generalizing m with
  | leaf action hleaf =>
    refine settles_of_enter (fun states m => ?_) m
    obtain ⟨effect, heffect⟩ := Action.exists_effect? app.handles states m.world.cells hleaf
    have hundergoes : ∃ m', m.Undergoes app effect m' := by
      cases effect with
      | call customType params =>
        obtain ⟨rfl, hhandles⟩ := Action.call_of_effect? heffect
        exact haction customType params (by simp [Action.leaves]) hhandles m
      | write cell value => exact ⟨_, rfl⟩
      | log message => exact ⟨_, rfl⟩
      | warn warning => exact ⟨_, rfl⟩
    obtain ⟨m', hm'⟩ := hundergoes
    have hds : ∀ i depth, .leave i depth ∉ effect.tasks app := by
      cases effect <;> simp [Effect.tasks]
    rw [World.enter_of_effect? heffect]
    have hleads := leads_effect_iff.mpr hm'
    exact ⟨m', hleads, hleads.dispatchers_eq hds⟩
  | sequence actions ih =>
    refine settles_of_enter (fun states m => ?_) m
    refine settles_tasks ?_ (rfl : m.dispatchers = m.dispatchers)
    simpa [World.enter] using fun action hmem m _ => ih action hmem (haction.of_mem hmem) m

end Moment

end ScreenDoc
