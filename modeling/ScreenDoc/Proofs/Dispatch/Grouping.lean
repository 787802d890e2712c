import ScreenDoc.Proofs.Dispatch.Depths
import ScreenDoc.Proofs.Dispatch.Effect
import ScreenDoc.Proofs.Dispatch.Unlimited

/-!
# Nesting only groups

Without a limit on depth a sequence is nothing but its actions, one after another. An action of any
shape is then its leaves from left to right, and each leaf has one effect, which depends on what the
leaves before it have written and on nothing else that came of them.
-/

namespace ScreenDoc

variable {σ : Type} {app : Application σ} {m m' : Machine σ} {id : DispatcherId} {d : Dispatcher}

/-! ## The leaves of an action -/

namespace Action

mutual

def leaves : Action → List Action
  | .sequence actions => leavesOf actions
  | action => [action]

def leavesOf : List Action → List Action
  | [] => []
  | action :: actions => leaves action ++ leavesOf actions

end

private theorem leavesOf_eq (actions : List Action) :
    leavesOf actions = actions.flatMap leaves := by
  induction actions with
  | nil => rfl
  | cons action actions ih => rw [leavesOf, ih, List.flatMap_cons]

theorem leaves_sequence (actions : List Action) :
    (sequence actions).leaves = actions.flatMap leaves := by
  rw [leaves, leavesOf_eq]

theorem leaves_of_ne {action : Action} (h : ∀ actions, action ≠ .sequence actions) :
    action.leaves = [action] := by
  cases action with
  | sequence actions => exact absurd rfl (h actions)
  | _ => rfl

private theorem ne_sequence_of_mem_leaves {action leaf : Action} (h : leaf ∈ action.leaves) :
    ∀ actions, leaf ≠ .sequence actions := by
  induction action using Action.induction with
  | leaf action haction =>
    rw [leaves_of_ne haction, List.mem_singleton] at h
    exact h ▸ haction
  | sequence actions ih =>
    rw [leaves_sequence, List.mem_flatMap] at h
    obtain ⟨action, haction, hleaf⟩ := h
    exact ih action haction hleaf

end Action

/-! ## One effect after another -/

/-- What comes of an effect. A call is over when the reaction of the application is; everything else
happens at once and leaves all the rest as it was. -/
def Machine.Undergoes (app : Application σ) (m : Machine σ) : Effect → Machine σ → Prop
  | .call customType params, m' =>
    ∃ steps, m.call app (perform app steps) (.custom customType params) = some m'
  | effect, m' => m' = { m with world := m.world.apply effect }

/-- Actions one after another, each with one effect in view of what is in the cells by then. -/
def Machine.UndergoesAll (app : Application σ) (states : Registry) :
    Machine σ → List Action → Machine σ → Prop
  | m, [], m' => m' = m
  | m, action :: actions, m' => ∃ effect m₁,
    action.effect? app.handles states m.world.cells = some effect ∧ m.Undergoes app effect m₁ ∧
      UndergoesAll app states m₁ actions m'

namespace Moment

private theorem leads_react_iff {next : World → σ → Reaction σ} :
    Leads app ⟨m, [.react next]⟩ ⟨m', []⟩ ↔
      ∃ steps, m.follow (Machine.perform app steps) (next m.world m.app) = some m' := by
  constructor
  · intro h
    obtain ⟨steps, hsteps⟩ := h.exists_foldlM
    exact ⟨steps, by simpa [Task.perform] using hsteps⟩
  · rintro ⟨steps, hsteps⟩
    exact leads_of_task (fun _ _ _ => leads_of_perform) hsteps

theorem leads_effect_iff {effect : Effect} :
    Leads app ⟨{ m with world := m.world.apply effect }, effect.tasks app⟩ ⟨m', []⟩ ↔
      m.Undergoes app effect m' := by
  cases effect with
  | call customType params => exact leads_react_iff
  | write cell value => exact leads_nil_iff.trans eq_comm
  | log message => exact leads_nil_iff.trans eq_comm
  | warn warning => exact leads_nil_iff.trans eq_comm

theorem leads_leaf_iff (hd : m.dispatchers[id]? = some d) (hfree : d.maxDepth = none)
    {leaf : Action} {effect : Effect}
    (heffect : leaf.effect? app.handles d.states m.world.cells = some effect) :
    Leads app ⟨m, [.carryOut (.dispatch id leaf)]⟩ ⟨m', []⟩ ↔ m.Undergoes app effect m' := by
  rw [leads_dispatch_iff hd hfree, World.enter_of_effect? heffect]
  exact leads_effect_iff

private theorem leads_leaves_iff (hd : m.dispatchers[id]? = some d) (hfree : d.maxDepth = none)
    {leaves : List Action} (hleaves : ∀ leaf ∈ leaves, ∀ actions, leaf ≠ .sequence actions) :
    Leads app ⟨m, leaves.map fun leaf => .carryOut (.dispatch id leaf)⟩ ⟨m', []⟩ ↔
      m.UndergoesAll app d.states leaves m' := by
  induction leaves generalizing m with
  | nil => exact leads_nil_iff.trans eq_comm
  | cons leaf leaves ih =>
    rw [List.forall_mem_cons] at hleaves
    obtain ⟨effect, heffect⟩ := Action.exists_effect? app.handles d.states m.world.cells
      hleaves.1
    have hrest {m₁ : Machine σ}
        (h : Leads app ⟨m, [.carryOut (.dispatch id leaf)]⟩ ⟨m₁, []⟩) :
        Leads app ⟨m₁, leaves.map fun leaf => .carryOut (.dispatch id leaf)⟩ ⟨m', []⟩ ↔
          m₁.UndergoesAll app d.states leaves m' :=
      ih (h.dispatchers_eq (by simp) ▸ hd) hleaves.2
    rw [List.map_cons, ← List.singleton_append, leads_append_iff]
    constructor
    · rintro ⟨m₁, hleaf, h⟩
      exact ⟨effect, m₁, heffect, (leads_leaf_iff hd hfree heffect).mp hleaf, (hrest hleaf).mp h⟩
    · rintro ⟨effect', m₁, heffect', hleaf, h⟩
      have hleaf := (leads_leaf_iff hd hfree heffect').mpr hleaf
      exact ⟨m₁, hleaf, (hrest hleaf).mpr h⟩

/-! ## Sequences taken apart -/

private theorem leads_flatMap_iff {f : Action → List Action} {actions : List Action}
    (h : ∀ action ∈ actions, ∀ {m m' : Machine σ}, m.dispatchers[id]? = some d →
      (Leads app ⟨m, [.carryOut (.dispatch id action)]⟩ ⟨m', []⟩ ↔
        Leads app ⟨m, (f action).map fun action => .carryOut (.dispatch id action)⟩ ⟨m', []⟩))
    (hd : m.dispatchers[id]? = some d) :
    Leads app ⟨m, actions.map fun action => .carryOut (.dispatch id action)⟩ ⟨m', []⟩ ↔
      Leads app ⟨m, (actions.flatMap f).map fun action => .carryOut (.dispatch id action)⟩
        ⟨m', []⟩ := by
  induction actions generalizing m with
  | nil => rfl
  | cons action actions ih =>
    rw [List.forall_mem_cons] at h
    rw [List.map_cons, ← List.singleton_append, List.flatMap_cons, List.map_append,
      leads_append_iff, leads_append_iff]
    refine exists_congr fun m₁ => ?_
    rw [h.1 hd]
    refine and_congr_right fun hfirst => ih h.2 ?_
    exact hfirst.dispatchers_eq (by simp) ▸ hd

/-- An action is its leaves. -/
theorem leads_iff_leaves (hfree : d.maxDepth = none) (action : Action)
    (hd : m.dispatchers[id]? = some d) :
    Leads app ⟨m, [.carryOut (.dispatch id action)]⟩ ⟨m', []⟩ ↔
      Leads app ⟨m, action.leaves.map fun leaf => .carryOut (.dispatch id leaf)⟩ ⟨m', []⟩ := by
  induction action using Action.induction generalizing m m' with
  | leaf action haction => rw [Action.leaves_of_ne haction, List.map_singleton]
  | sequence actions ih =>
    rw [leads_dispatch_iff hd hfree, Action.leaves_sequence]
    exact leads_flatMap_iff (fun action haction _ _ hd => ih action haction hd) hd

end Moment

/-- Without a limit on depth nesting only groups. An action leads where its leaves lead when they
are dispatched one after another, to the same cells, records, calls and state of the application,
and comes to an end exactly if they do. On the way each leaf has exactly one effect, whatever came
of the leaves before it: it writes the cell of its key, logs, calls the application once or warns,
and nothing else changes. -/
theorem Machine.nesting_groups (app : Application σ) (hd : m.dispatchers[id]? = some d)
    (hfree : d.maxDepth = none) (action : Action) (m' : Machine σ) :
    (m.Runs app [.dispatch id action] m' ↔ m.Runs app (action.leaves.map (.dispatch id)) m') ∧
    (m.Runs app (action.leaves.map (.dispatch id)) m' ↔
      m.UndergoesAll app d.states action.leaves m') := by
  have hleaves : m.Runs app (action.leaves.map (.dispatch id)) m' ↔
      Moment.Leads app ⟨m, action.leaves.map fun leaf => .carryOut (.dispatch id leaf)⟩
        ⟨m', []⟩ := by
    rw [runs_iff_leads, List.map_map]
    rfl
  constructor
  · rw [hleaves, runs_iff_leads]
    exact Moment.leads_iff_leaves hfree action hd
  · rw [hleaves]
    exact Moment.leads_leaves_iff hd hfree fun _ => Action.ne_sequence_of_mem_leaves

theorem Machine.nesting_groups_budgeted :
    let states : Registry := [("alias", 0), ("open", 0)]
    let m : Machine Nat :=
      { world := { cells := ⟨[.bool false]⟩ }, dispatchers := [{ states }], app := 1 }
    let action : Action := .sequence
      [.toggleState "open", .sequence [.custom "again" [], .sequence [], .toggleState "gone"],
        .toggleState "alias", .log "end"]
    ∃ m', m.Runs .budgeted [.dispatch 0 action] m' ∧
      m.Runs .budgeted (action.leaves.map (.dispatch 0)) m' ∧
      m.UndergoesAll .budgeted states action.leaves m' ∧
      m'.world.records = [.warn (.noHost "ToggleState" "gone"), .log "end"] ∧
      m'.world.calls.length = 2 ∧ m'.world.cells = ⟨[.bool false]⟩ := by
  intro states m action
  have houtcome : ∃ outcome : Machine Nat, m.Runs .budgeted [.dispatch 0 action] outcome ∧
      outcome.world.records = [.warn (.noHost "ToggleState" "gone"), .log "end"] ∧
      outcome.world.calls.length = 2 ∧ outcome.world.cells = ⟨[.bool false]⟩ :=
    ⟨_, ⟨5, rfl⟩, rfl, rfl, rfl⟩
  obtain ⟨m', htree, hrest⟩ := houtcome
  obtain ⟨hgroup, heffects⟩ :=
    nesting_groups .budgeted (show m.dispatchers[0]? = some { states } from rfl) rfl action m'
  have hleaves := hgroup.mp htree
  exact ⟨m', htree, hleaves, heffects.mp hleaves, hrest⟩

end ScreenDoc
