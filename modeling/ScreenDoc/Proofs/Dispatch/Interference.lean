import Mathlib.Tactic.ByContra
import ScreenDoc.Proofs.Dispatch.Returning
import ScreenDoc.Proofs.Dispatch.Scripts

/-!
# Scripts that do not interfere

What a script without custom actions writes and records depends on nothing but the cells that its
keys name, and it changes no other. So two such scripts whose keys name no cell in common may run in
either order.
-/

namespace ScreenDoc

variable {σ : Type} {app : Application σ} {m m' n : Machine σ} {id : DispatcherId}
  {shared : CellId → Prop} {v₁ v₂ w₁ w₂ : World}

/-! ## Worlds that agree in some cells -/

/-- Two worlds that have come from `v₁` and `v₂` with the same records since then, and that agree in
these cells. -/
structure World.Alike (shared : CellId → Prop) (v₁ v₂ w₁ w₂ : World) : Prop where
  cells : ∀ cell, shared cell → w₂.cells.get? cell = w₁.cells.get? cell
  records : ∃ added, w₁.records = v₁.records ++ added ∧ w₂.records = v₂.records ++ added

namespace World.Alike

theorem start (h : ∀ cell, shared cell → v₂.cells.get? cell = v₁.cells.get? cell) :
    Alike shared v₁ v₂ v₁ v₂ :=
  ⟨h, [], (List.append_nil _).symm, (List.append_nil _).symm⟩

theorem record (h : Alike shared v₁ v₂ w₁ w₂) (r : SinkRecord) :
    Alike shared v₁ v₂ (w₁.record r) (w₂.record r) := by
  obtain ⟨added, h₁, h₂⟩ := h.records
  refine ⟨h.cells, added ++ [r], ?_, ?_⟩
  · simp [World.record, h₁]
  · simp [World.record, h₂]

theorem apply (h : Alike shared v₁ v₂ w₁ w₂) (effect : Effect) :
    Alike shared v₁ v₂ (w₁.apply effect) (w₂.apply effect) := by
  cases effect with
  | write written value =>
    refine ⟨fun cell hcell => ?_, h.records⟩
    have hsame := h.cells cell hcell
    by_cases hwritten : written = cell
    · subst hwritten
      simp only [World.apply, Cells.get?, Cells.set, List.getElem?_set_self'] at hsame ⊢
      rw [hsame]
    · simp only [World.apply, Cells.get?, Cells.set, List.getElem?_set_ne hwritten] at hsame ⊢
      exact hsame
  | log message => exact h.record _
  | call customType params => exact ⟨h.cells, h.records⟩
  | warn warning => exact h.record _

end World.Alike

private theorem Action.effect?_congr {handles : String → Bool} {states : Registry}
    {cells₁ cells₂ : Cells} {action : Action} (h : ∀ key cell, action.writtenKey? = some key →
      KeyMap.get? states key = some cell → cells₂.get? cell = cells₁.get? cell) :
    action.effect? handles states cells₂ = action.effect? handles states cells₁ := by
  cases action with
  | toggleState key =>
    cases hcell : KeyMap.get? states key with
    | none => simp only [effect?, hcell]
    | some cell => simp only [effect?, hcell, h key cell rfl hcell]
  | _ => rfl

/-- An action does the same at once in worlds that agree in the cell that its key names. -/
theorem World.Alike.enter (h : Alike shared v₁ v₂ w₁ w₂) {states : Registry} {action : Action}
    (haction : ∀ key cell, action.writtenKey? = some key → KeyMap.get? states key = some cell →
      shared cell) :
    Alike shared v₁ v₂ (w₁.enter app id states action).1 (w₂.enter app id states action).1 ∧
      (w₂.enter app id states action).2 = (w₁.enter app id states action).2 := by
  by_cases hsequence : ∃ actions, action = .sequence actions
  · obtain ⟨actions, rfl⟩ := hsequence
    exact ⟨h, rfl⟩
  · rw [not_exists] at hsequence
    obtain ⟨effect, heffect⟩ := Action.exists_effect? app.handles states w₁.cells hsequence
    have hsame : action.effect? app.handles states w₂.cells = some effect :=
      (Action.effect?_congr fun key cell hkey hcell =>
        h.cells cell (haction key cell hkey hcell)).trans heffect
    rw [World.enter_of_effect? heffect, World.enter_of_effect? hsame]
    exact ⟨h.apply effect, rfl⟩

/-! ## Runs side by side -/

/-- The leaf is left to no handler, and its key names one of these cells if it names any. -/
def Machine.Confines (m : Machine σ) (shared : CellId → Prop) (id : DispatcherId)
    (leaf : Action) : Prop :=
  (∀ customType params, leaf ≠ .custom customType params) ∧
    ∀ key cell, leaf.writtenKey? = some key → m.cell? id key = some cell → shared cell

/-- Two moments with the same to do, on the same dispatchers, in worlds that agree. -/
structure Moment.Alike (shared : CellId → Prop) (v₁ v₂ : World) (c₁ c₂ : Moment σ) : Prop where
  tasks : c₂.tasks = c₁.tasks
  dispatchers : c₂.machine.dispatchers = c₁.machine.dispatchers
  world : World.Alike shared v₁ v₂ c₁.machine.world c₂.machine.world

theorem Machine.Stepped.alike {task : Task σ} {done : Moment σ} (h : m.Stepped app task done)
    (htask : task.OfKind (m.Confines shared)) (hds : n.dispatchers = m.dispatchers)
    (hworld : World.Alike shared v₁ v₂ m.world n.world) :
    ∃ done', n.Stepped app task done' ∧ done.Alike shared v₁ v₂ done' := by
  cases h with
  | script => exact ⟨_, .script, rfl, hds, hworld⟩
  | external => exact htask.elim
  | absent hd => exact ⟨_, .absent (hds ▸ hd), rfl, hds, hworld⟩
  | dropped hd hover => exact ⟨_, .dropped (hds ▸ hd) hover, rfl, hds, hworld.record _⟩
  | @entered id action d hd hroom =>
    have hshared : ∀ key cell, action.writtenKey? = some key →
        KeyMap.get? d.states key = some cell → shared cell := by
      intro key cell hkey hcell
      refine (htask action (Action.mem_leaves_of_writtenKey? hkey)).2 key cell hkey ?_
      rw [Machine.cell?, Machine.states?_of_dispatcher hd]
      exact hcell
    have hentered : World.Alike shared v₁ v₂ (m.world.enter app id d.states action).1
          (n.world.enter app id d.states action).1 ∧
        (n.world.enter app id d.states action).2 = (m.world.enter app id d.states action).2 :=
      hworld.enter hshared
    refine ⟨_, .entered (hds ▸ hd) hroom, ?_, ?_, hentered.1⟩
    · simp only [hentered.2]
    · simp only [Machine.setDepth, hds]
  | done => exact htask.elim
  | give => exact htask.elim
  | leave => exact ⟨_, .leave, rfl, by simp only [Machine.setDepth, hds], hworld⟩

private theorem Machine.confines_congr (h : ∀ id key, m'.cell? id key = m.cell? id key) :
    m'.Confines shared = m.Confines shared := by
  funext id leaf
  simp only [Confines, h]

/-- Tasks that keep to cells in which two machines agree do the same on both. -/
theorem Moment.Leads.alike {c₁ c₁' c₂ : Moment σ} (h : Leads app c₁ c₁')
    (htasks : ∀ task ∈ c₁.tasks, task.OfKind (c₁.machine.Confines shared))
    (hc : c₁.Alike shared v₁ v₂ c₂) :
    ∃ c₂', Leads app c₂ c₂' ∧ c₁'.Alike shared v₁ v₂ c₂' := by
  induction h with
  | refl => exact ⟨c₂, .refl, hc⟩
  | tail hleads hnext ih =>
    obtain ⟨c₃, hleads₂, halike⟩ := ih
    obtain ⟨task, rest, done, hfirst, hdone, rfl⟩ := exists_stepped hnext
    have hkind := Leads.ofKind (fun _ _ _ hkind => absurd rfl (hkind.1 _ _)) hleads htasks task
      (hfirst ▸ List.mem_cons_self)
    rw [← Machine.confines_congr (Leads.cell? hleads)] at hkind
    obtain ⟨done', hdone', hend⟩ := hdone.alike hkind halike.dispatchers halike.world
    have hnext' : c₃.next? app = some ⟨done'.machine, done'.tasks ++ rest⟩ := by
      rw [← next?_of_stepped hdone' rest, ← hfirst, ← halike.tasks]
    exact ⟨_, hleads₂.tail hnext', by rw [hend.tasks], hend.dispatchers, hend.world⟩

/-! ## Scripts -/

namespace Machine

variable {actions : List Action}

def referred (m : Machine σ) (id : DispatcherId) (actions : List Action) : List CellId :=
  (actions.flatMap Action.leaves).filterMap fun leaf => leaf.writtenKey?.bind (m.cell? id)

private theorem mem_referred {cell : CellId} :
    cell ∈ m.referred id actions ↔ ∃ leaf, (∃ action ∈ actions, leaf ∈ action.leaves) ∧
      ∃ key, leaf.writtenKey? = some key ∧ m.cell? id key = some cell := by
  simp only [referred, List.mem_filterMap, List.mem_flatMap, Option.bind_eq_some_iff]

theorem referred_congr (hds : n.dispatchers = m.dispatchers) :
    n.referred id actions = m.referred id actions := by
  have hcell : n.cell? id = m.cell? id := by
    funext key
    rw [cell?, cell?, states?, states?, hds]
  rw [referred, referred, hcell]

section Plain

variable (hplain : ∀ action ∈ actions, action.Plain)

include hplain

theorem ofKind_script (m : Machine σ) (id : DispatcherId) :
    ∀ task ∈ [Task.carryOut (σ := σ) (.invoke (.script id actions))],
      task.OfKind (m.Confines (· ∈ m.referred id actions)) := by
  rw [List.forall_mem_singleton]
  intro action haction leaf hleaf
  refine ⟨?_, fun key cell hkey hcell =>
    mem_referred.mpr ⟨leaf, ⟨action, haction, hleaf⟩, key, hkey, hcell⟩⟩
  rintro customType params rfl
  exact hplain action haction customType params hleaf

theorem exists_runs_script (app : Application σ) (m : Machine σ) (id : DispatcherId) :
    ∃ m', m.Runs app [.invoke (.script id actions)] m' ∧ m'.dispatchers = m.dispatchers := by
  have hsettles : Moment.Settles app
      ⟨m, actions.map fun action => .carryOut (.dispatch id action)⟩ := by
    refine Moment.settles_tasks ?_ (rfl : m.dispatchers = m.dispatchers)
    rw [List.forall_mem_map]
    exact fun action haction m _ => Moment.settles_action ((hplain action haction).returns app) m
  obtain ⟨m', hleads, hds⟩ := hsettles
  exact ⟨m', runs_iff_leads.mpr (.first .script hleads), hds⟩

theorem Runs.get?_of_notMem (h : m.Runs app [.invoke (.script id actions)] m')
    {cell : CellId} (hcell : cell ∉ m.referred id actions) :
    m'.world.cells.get? cell = m.world.cells.get? cell := by
  by_contra hne
  obtain ⟨i, leaf, key, hkind, hkey, hnamed⟩ :=
    Moment.Leads.exists_leaf (fun _ _ _ hkind => absurd rfl (hkind.1 _ _)) (runs_iff_leads.mp h)
      (ofKind_script hplain m id) hne
  exact hcell (hkind.2 key cell hkey hnamed)

theorem Runs.alike (h : m.Runs app [.invoke (.script id actions)] m')
    (hds : n.dispatchers = m.dispatchers)
    (hcells : ∀ cell ∈ m.referred id actions,
      n.world.cells.get? cell = m.world.cells.get? cell) :
    ∃ n', n.Runs app [.invoke (.script id actions)] n' ∧
      World.Alike (· ∈ m.referred id actions) m.world n.world m'.world n'.world := by
  have hstart : Moment.Alike (· ∈ m.referred id actions) m.world n.world
      ⟨m, [Task.carryOut (σ := σ) (.invoke (.script id actions))]⟩
      ⟨n, [.carryOut (.invoke (.script id actions))]⟩ :=
    ⟨rfl, hds, .start hcells⟩
  obtain ⟨⟨n', tasks⟩, hleads, halike⟩ :=
    (runs_iff_leads.mp h).alike (ofKind_script hplain m id) hstart
  obtain rfl : tasks = [] := halike.tasks
  exact ⟨n', runs_iff_leads.mpr hleads, halike.world⟩

end Plain

/-- Scripts without custom actions whose keys name no cell in common do not interfere, whatever
the limits on depth. Both orders leave the same value in every cell, and what each script records
is the same in both. -/
theorem scripts_independent (app : Application σ) (m : Machine σ) (i j : DispatcherId)
    {first second : List Action} (hfirst : ∀ action ∈ first, action.Plain)
    (hsecond : ∀ action ∈ second, action.Plain)
    (hapart : ∀ cell ∈ m.referred i first, cell ∉ m.referred j second) :
    ∃ m₁ m₂ m₁₂ m₂₁ : Machine σ, ∃ records₁ records₂ : List SinkRecord,
      (m.Runs app [.invoke (.script i first)] m₁ ∧
        m₁.world.records = m.world.records ++ records₁) ∧
      (m₁.Runs app [.invoke (.script j second)] m₁₂ ∧
        m₁₂.world.records = m₁.world.records ++ records₂) ∧
      (m.Runs app [.invoke (.script j second)] m₂ ∧
        m₂.world.records = m.world.records ++ records₂) ∧
      (m₂.Runs app [.invoke (.script i first)] m₂₁ ∧
        m₂₁.world.records = m₂.world.records ++ records₁) ∧
      ∀ cell, m₁₂.world.cells.get? cell = m₂₁.world.cells.get? cell := by
  obtain ⟨m₁, hruns₁, hds₁⟩ := exists_runs_script hfirst app m i
  obtain ⟨m₂, hruns₂, hds₂⟩ := exists_runs_script hsecond app m j
  obtain ⟨m₁₂, hruns₁₂, halike₂⟩ := hruns₂.alike hsecond hds₁ fun cell hcell =>
    hruns₁.get?_of_notMem hfirst fun hcell' => hapart cell hcell' hcell
  obtain ⟨m₂₁, hruns₂₁, halike₁⟩ := hruns₁.alike hfirst hds₂ fun cell hcell =>
    hruns₂.get?_of_notMem hsecond (hapart cell hcell)
  obtain ⟨records₁, hrecords₁, hrecords₂₁⟩ := halike₁.records
  obtain ⟨records₂, hrecords₂, hrecords₁₂⟩ := halike₂.records
  refine ⟨m₁, m₂, m₁₂, m₂₁, records₁, records₂, ⟨hruns₁, hrecords₁⟩, ⟨hruns₁₂, hrecords₁₂⟩,
    ⟨hruns₂, hrecords₂⟩, ⟨hruns₂₁, hrecords₂₁⟩, fun cell => ?_⟩
  have hother₁ (h : cell ∉ m.referred i first) :
      m₂₁.world.cells.get? cell = m₂.world.cells.get? cell :=
    hruns₂₁.get?_of_notMem hfirst (referred_congr hds₂ ▸ h)
  have hother₂ (h : cell ∉ m.referred j second) :
      m₁₂.world.cells.get? cell = m₁.world.cells.get? cell :=
    hruns₁₂.get?_of_notMem hsecond (referred_congr hds₁ ▸ h)
  by_cases h₁ : cell ∈ m.referred i first
  · rw [hother₂ (hapart cell h₁), halike₁.cells cell h₁]
  · rw [hother₁ h₁]
    by_cases h₂ : cell ∈ m.referred j second
    · exact halike₂.cells cell h₂
    · rw [hother₂ h₂, hruns₁.get?_of_notMem hfirst h₁, hruns₂.get?_of_notMem hsecond h₂]

theorem scripts_independent_aliased :
    let m : Machine Unit :=
      { world := { cells := ⟨[.bool false, .string "on", .null]⟩ }
        dispatchers := [{
          states := [("alias", 0), ("count", 2), ("mode", 1), ("open", 0)], maxDepth := some 2 }]
        app := () }
    let first : List Action :=
      [.toggleState "open", .sequence [.toggleState "alias", .sequence [.log "deep"]],
        .toggleState "open"]
    let second : List Action :=
      [.toggleState "mode",
        .sequence [.setState "count" (.ofJson (.bool true)), .toggleState "count"],
        .toggleState "gone"]
    ∃ m₁ m₂ m₁₂ m₂₁ : Machine Unit,
      m.Runs .inert [.invoke (.script 0 first)] m₁ ∧
      m₁.Runs .inert [.invoke (.script 0 second)] m₁₂ ∧
      m.Runs .inert [.invoke (.script 0 second)] m₂ ∧
      m₂.Runs .inert [.invoke (.script 0 first)] m₂₁ ∧
      m₁.world.records = [.warn (.dropped "Log" 3 2)] ∧
      m₂.world.records =
        [.warn (.notBoolean "mode" "String"), .warn (.noHost "ToggleState" "gone")] ∧
      m₁₂.world.records = m₁.world.records ++ m₂.world.records ∧
      m₂₁.world.records = m₂.world.records ++ m₁.world.records ∧
      ∀ cell, m₁₂.world.cells.get? cell = m₂₁.world.cells.get? cell := by
  intro m first second
  have hfirst : ∀ action ∈ first, action.Plain := by
    simp [first, Action.Plain, Action.leaves, Action.leavesOf]
  have hsecond : ∀ action ∈ second, action.Plain := by
    simp [second, Action.Plain, Action.leaves, Action.leavesOf]
  have hapart : ∀ cell ∈ m.referred 0 first, cell ∉ m.referred 0 second := by decide
  obtain ⟨m₁, m₂, m₁₂, m₂₁, records₁, records₂, ⟨hruns₁, hrecords₁⟩, ⟨hruns₁₂, hrecords₁₂⟩,
    ⟨hruns₂, hrecords₂⟩, ⟨hruns₂₁, hrecords₂₁⟩, hcells⟩ :=
    scripts_independent .inert m 0 0 hfirst hsecond hapart
  have houtcome₁ : ∃ outcome : Machine Unit, m.Runs .inert [.invoke (.script 0 first)] outcome ∧
      outcome.world.records = [.warn (.dropped "Log" 3 2)] := ⟨_, ⟨4, rfl⟩, rfl⟩
  have houtcome₂ : ∃ outcome : Machine Unit, m.Runs .inert [.invoke (.script 0 second)] outcome ∧
      outcome.world.records =
        [.warn (.notBoolean "mode" "String"), .warn (.noHost "ToggleState" "gone")] :=
    ⟨_, ⟨3, rfl⟩, rfl⟩
  obtain ⟨outcome₁, houtcome₁, hshown₁⟩ := houtcome₁
  obtain ⟨outcome₂, houtcome₂, hshown₂⟩ := houtcome₂
  obtain rfl : m₁ = outcome₁ := hruns₁.unique houtcome₁
  obtain rfl : m₂ = outcome₂ := hruns₂.unique houtcome₂
  refine ⟨m₁, m₂, m₁₂, m₂₁, hruns₁, hruns₁₂, hruns₂, hruns₂₁, hshown₁, hshown₂, ?_, ?_, hcells⟩
  · rw [hrecords₁₂, hrecords₂]
    rfl
  · rw [hrecords₂₁, hrecords₁]
    rfl

end Machine

end ScreenDoc
