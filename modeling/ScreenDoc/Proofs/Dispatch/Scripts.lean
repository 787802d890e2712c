import ScreenDoc.Proofs.Dispatch.Frame
import ScreenDoc.Proofs.Dispatch.Grouping

/-!
# Scripts without handlers

Where no custom type is handled, a script only ever gets to its own actions, on its own dispatcher.
So the cells that it may change can be read off: they are among those that its keys name there.
-/

namespace ScreenDoc

variable {σ : Type} {app : Application σ} {m : Machine σ} {id : DispatcherId}
  {allowed : DispatcherId → String → Prop}

/-- The action, or one inside it, is to write under this key. -/
def Action.Names (action : Action) (key : String) : Prop :=
  ∃ leaf ∈ action.leaves, leaf.writtenKey? = some key

theorem Action.mem_leaves_of_writtenKey? {action : Action} {key : String}
    (h : action.writtenKey? = some key) : action ∈ action.leaves := by
  cases action with
  | sequence actions => cases h
  | _ => exact List.mem_singleton_self _

/-- Nothing is to be done but actions whose leaves are of this kind on their dispatchers. -/
def Task.OfKind (kind : DispatcherId → Action → Prop) : Task σ → Prop
  | .carryOut (.dispatch id action) => ∀ leaf ∈ action.leaves, kind id leaf
  | .carryOut (.invoke (.script id actions)) =>
    ∀ action ∈ actions, ∀ leaf ∈ action.leaves, kind id leaf
  | .carryOut (.invoke (.external _)) => False
  | .react _ => False
  | .leave _ _ => True

section OfKind

variable {kind : DispatcherId → Action → Prop}
  (hquiet : ∀ id customType params, kind id (.custom customType params) → ¬app.handles customType)

include hquiet

private theorem World.ofKind_enter {w : World} {states : Registry} {action : Action}
    (haction : ∀ leaf ∈ action.leaves, kind id leaf) :
    ∀ task ∈ (w.enter app id states action).2, task.OfKind kind := by
  cases action with
  | setState key value => simp [enter]
  | toggleState key => simp [enter]
  | log message => simp [enter]
  | sequence actions =>
    rw [enter, List.forall_mem_map]
    intro action hmem leaf hleaf
    refine haction leaf ?_
    rw [Action.leaves_sequence]
    exact List.mem_flatMap_of_mem hmem hleaf
  | custom customType params =>
    rw [enter_of_not_handles (hquiet id customType params (haction _ (List.mem_singleton_self _)))]
    simp

theorem Machine.Stepped.ofKind {task : Task σ} {done : Moment σ} (h : m.Stepped app task done)
    (htask : task.OfKind kind) : ∀ task ∈ done.tasks, task.OfKind kind := by
  cases h with
  | script =>
    rw [List.forall_mem_map]
    exact htask
  | external => exact htask.elim
  | absent => simp
  | dropped => simp
  | entered =>
    rw [List.forall_mem_append]
    exact ⟨World.ofKind_enter hquiet htask, by simp [Task.OfKind]⟩
  | done => simp
  | give => exact htask.elim
  | leave => simp

namespace Moment

variable {c c' : Moment σ}

theorem Leads.ofKind (h : Leads app c c') (hc : ∀ task ∈ c.tasks, task.OfKind kind) :
    ∀ task ∈ c'.tasks, task.OfKind kind := by
  induction h with
  | refl => exact hc
  | tail _ hnext ih =>
    obtain ⟨task, rest, done, htasks, hdone, rfl⟩ := exists_stepped hnext
    rw [htasks, List.forall_mem_cons] at ih
    rw [List.forall_mem_append]
    exact ⟨hdone.ofKind hquiet ih.1, ih.2⟩

theorem Leads.exists_leaf (h : Leads app c c') (hc : ∀ task ∈ c.tasks, task.OfKind kind)
    {cell : CellId} (hne : c'.machine.world.cells.get? cell ≠ c.machine.world.cells.get? cell) :
    ∃ id leaf key, kind id leaf ∧ leaf.writtenKey? = some key ∧
      c.machine.cell? id key = some cell := by
  obtain ⟨c₁, _, id, key, value, hleads, hwrites, _⟩ := h.exists_writes hne
  obtain ⟨htasks, _, _, hkey, hcell, _⟩ := hwrites
  have hfirst := hleads.ofKind hquiet hc _ (htasks ▸ List.mem_cons_self)
  refine ⟨id, _, key, hfirst _ (Action.mem_leaves_of_writtenKey? hkey), hkey, ?_⟩
  rw [← hleads.cell?]
  exact hcell

end Moment

end OfKind

/-- Nothing is to be done but actions that write under keys allowed on their dispatchers. -/
def Task.Confined (allowed : DispatcherId → String → Prop) : Task σ → Prop
  | .carryOut (.dispatch id action) => ∀ key, action.Names key → allowed id key
  | .carryOut (.invoke (.script id actions)) =>
    ∀ action ∈ actions, ∀ key, action.Names key → allowed id key
  | .carryOut (.invoke (.external _)) => False
  | .react _ => False
  | .leave _ _ => True

theorem Task.Confined.ofKind {task : Task σ} (h : task.Confined allowed) :
    task.OfKind fun id leaf => ∀ key, leaf.writtenKey? = some key → allowed id key := by
  cases task with
  | carryOut order =>
    cases order with
    | dispatch id action => exact fun leaf hleaf key hkey => h key ⟨leaf, hleaf, hkey⟩
    | invoke behavior =>
      cases behavior with
      | script id actions =>
        exact fun action haction leaf hleaf key hkey => h action haction key ⟨leaf, hleaf, hkey⟩
      | external id => exact h.elim
  | react next => exact h.elim
  | leave id depth => trivial

theorem Moment.Leads.exists_named {c c' : Moment σ}
    (hquiet : ∀ customType, ¬app.handles customType) (h : Leads app c c')
    (hc : ∀ task ∈ c.tasks, task.Confined allowed) {cell : CellId}
    (hne : c'.machine.world.cells.get? cell ≠ c.machine.world.cells.get? cell) :
    ∃ id key, allowed id key ∧ c.machine.cell? id key = some cell := by
  obtain ⟨id, leaf, key, hallowed, hkey, hcell⟩ :=
    h.exists_leaf (fun _ customType _ _ => hquiet customType)
      (fun task htask => (hc task htask).ofKind) hne
  exact ⟨id, key, hallowed key hkey, hcell⟩

end ScreenDoc
