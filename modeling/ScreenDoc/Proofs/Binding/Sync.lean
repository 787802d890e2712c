import ScreenDoc.Proofs.Binding.Merge
import ScreenDoc.Proofs.Same

/-!
# Bindings kept current

However a bound document has been synced, and whatever has happened to the machine meanwhile, its
binding is current for its document. Only a document whose sections differ in value is bound anew,
and then the scripts of all bindings before it are cut off from the new cells.
-/

namespace ScreenDoc

variable {σ : Type} {app : Application σ} {m m' : Machine σ}

/-- The order is to run a script on a dispatcher of this machine. -/
def Order.ScriptIn (m : Machine σ) (order : Order) : Prop :=
  ∃ id actions, order = .invoke (.script id actions) ∧ id < m.dispatchers.length

private theorem Machine.exists_states?_of_lt {id : DispatcherId} (h : id < m.dispatchers.length) :
    ∃ states, m.states? id = some states :=
  ⟨_, states?_of_dispatcher (List.getElem?_eq_getElem h)⟩

namespace Binder

variable {b : Binder} {d : Document} {binding : Binding}

private theorem Merges.states?_of_some (h : b.Merges d m binding m') {id : DispatcherId}
    {states : Registry} (hid : m.states? id = some states) :
    m'.states? id = some states := by
  rw [← hid, Machine.states?, Machine.states?, h.dispatchers,
    List.getElem?_append_left (Machine.lt_of_states? hid)]

private theorem Merges.cell_kept (h : b.Merges d m binding m') (hm : m.Made) {m₁ : Machine σ}
    (hlater : m'.Later app m₁) {quiet : Application σ}
    (hquiet : ∀ customType, ¬quiet.handles customType) {orders : List Order}
    (horders : ∀ order ∈ orders, order.ScriptIn m) {c : Moment σ}
    (hleads : Moment.Leads quiet ⟨m₁, orders.map .carryOut⟩ c) {key : String} {cell : CellId}
    (hkey : key ∈ KeyMap.keys d.initialState.fields)
    (hcell : KeyMap.get? binding.states key = some cell) :
    c.machine.world.cells.get? cell = m₁.world.cells.get? cell := by
  -- The keys do not matter: a dispatcher from before names cells from before under all of them.
  have hconfined : ∀ task ∈ orders.map (@Task.carryOut σ),
      task.Confined fun id _ => id < m.dispatchers.length := by
    rw [List.forall_mem_map]
    intro order horder
    obtain ⟨id, actions, rfl, hid⟩ := horders order horder
    exact fun _ _ _ _ => hid
  by_contra hne
  obtain ⟨id, other, hid, hnamed⟩ := hleads.exists_named hquiet hconfined hne
  obtain ⟨states, hstates⟩ := Machine.exists_states?_of_lt hid
  rw [Machine.cell?, hlater.states? (h.states?_of_some hstates), Option.bind_some] at hnamed
  exact h.notMem_of_lt hcell (hm id states hstates other cell hnamed) hkey

end Binder

namespace BoundDocument

variable {b : Binder} {m₀ : Machine σ} {given : Document} {bound : BoundDocument}

/-- The bound document and the machine that syncing can lead to, from the first binding on, and the
document that has been given last. -/
inductive Reached (app : Application σ) (b : Binder) (m₀ : Machine σ) :
    Document → BoundDocument → Machine σ → Prop where
  | new (d : Document) : Reached app b m₀ d (new b d m₀).1 (new b d m₀).2
  | sync {given : Document} {bound : BoundDocument} {m : Machine σ}
    (h : Reached app b m₀ given bound m) (d : Document) :
    Reached app b m₀ d (bound.sync d m).2.1 (bound.sync d m).2.2
  | happens {given : Document} {bound : BoundDocument} {m m' : Machine σ}
    (h : Reached app b m₀ given bound m) (hhappens : m.Happens app m') :
    Reached app b m₀ given bound m'

/-- What holds of a bound document on the machine `m` between any two steps. -/
structure Kept (b : Binder) (given : Document) (bound : BoundDocument) (m : Machine σ) : Prop where
  binder : bound.binder = b
  document : bound.document = given
  current : bound.binding.isCurrentFor bound.document = true
  /-- Its scripts run on its dispatcher, and that acts on its cells. -/
  scripts : ∀ name actions, KeyMap.get? bound.binding.actions.entries name = some actions →
    bound.binding.behavior? name = some (.script bound.binding.dispatcher actions)
  registry : m.states? bound.binding.dispatcher = some bound.binding.states
  outer : b.states.Made m.world.cells
  made : m.Made

/-- What taking over a document on the machine `m` is to come to. -/
structure Syncs (app : Application σ) (bound : BoundDocument) (m : Machine σ) (d : Document)
    (rebound : Bool) (bound' : BoundDocument) (m' : Machine σ) : Prop where
  rebound_iff : rebound = false ↔ bound.document.SameSections d
  /-- Nothing is new then but the document. -/
  same : rebound = false → bound'.binding = bound.binding ∧ m' = m
  merges : rebound = true → bound.binder.Merges d m bound'.binding m'
  /-- No script from before changes a cell of the new initial state, whatever happens first. -/
  apart : rebound = true → ∀ (m₁ : Machine σ) (quiet : Application σ) (orders : List Order)
    (c : Moment σ), m'.Later app m₁ → (∀ customType, ¬quiet.handles customType) →
    (∀ order ∈ orders, order.ScriptIn m) →
    Moment.Leads quiet ⟨m₁, orders.map .carryOut⟩ c →
    ∀ key ∈ KeyMap.keys d.initialState.fields, ∀ cell,
      KeyMap.get? bound'.binding.states key = some cell →
      c.machine.world.cells.get? cell = m₁.world.cells.get? cell

theorem sync_of_current {d : Document} (h : bound.binding.isCurrentFor d = true) :
    bound.sync d m = (false, { bound with document := d }, m) := by
  rw [sync, if_pos h]

theorem sync_of_not_current {d : Document} (h : ¬bound.binding.isCurrentFor d = true) :
    bound.sync d m =
      (true, { bound with document := d, binding := (bound.binder.bind d m).1 },
        (bound.binder.bind d m).2) := by
  rw [sync, if_neg h]

theorem kept_bind (hstates : b.states.Made m.world.cells) (hm : m.Made) (d : Document) :
    Kept b d { binder := b, document := d, binding := (b.bind d m).1 } (b.bind d m).2 := by
  have hmerges := Binder.merges_bind (d := d) hstates
  exact {
    binder := rfl
    document := rfl
    current := Binding.isCurrentFor_iff.mpr ⟨rfl, rfl⟩
    scripts name actions hactions := by
      have hscript : KeyMap.get? d.actions.entries name = some actions := hactions
      rw [hmerges.behaviors, hscript]
      rfl
    registry := hmerges.states?
    outer := hstates.mono (Binder.length_le_wired d m)
    made := Machine.made_bind hm hstates }

theorem Kept.happens (h : Kept b given bound m) (hhappens : m.Happens app m') :
    Kept b given bound m' where
  binder := h.binder
  document := h.document
  current := h.current
  scripts := h.scripts
  registry := hhappens.states? h.registry
  outer := h.outer.mono hhappens.length_le
  made := hhappens.made h.made

theorem Kept.sync (h : Kept b given bound m) (d : Document) :
    Kept b d (bound.sync d m).2.1 (bound.sync d m).2.2 := by
  by_cases hcurrent : bound.binding.isCurrentFor d = true
  · rw [sync_of_current hcurrent]
    exact { h with document := rfl, current := hcurrent }
  · rw [sync_of_not_current hcurrent, h.binder]
    exact kept_bind h.outer h.made d

private theorem Kept.syncs (h : Kept b given bound m) (d : Document) :
    bound.Syncs app m d (bound.sync d m).1 (bound.sync d m).2.1 (bound.sync d m).2.2 := by
  -- The test looks at what the binding was made from, and that may have been an earlier document.
  have hsections : bound.binding.isCurrentFor d = true ↔ bound.document.SameSections d :=
    Binding.isCurrentFor_iff_sameSections h.current
  by_cases hcurrent : bound.binding.isCurrentFor d = true
  · rw [sync_of_current hcurrent]
    exact {
      rebound_iff := iff_of_true rfl (hsections.mp hcurrent)
      same := fun _ => ⟨rfl, rfl⟩
      merges := nofun
      apart := nofun }
  · rw [sync_of_not_current hcurrent]
    have hmerges : bound.binder.Merges d m (bound.binder.bind d m).1 (bound.binder.bind d m).2 :=
      Binder.merges_bind (h.binder ▸ h.outer)
    exact {
      rebound_iff := iff_of_false nofun (mt hsections.mpr hcurrent)
      same := nofun
      merges := fun _ => hmerges
      apart := fun _ _ _ _ _ hlater hquiet horders hleads _ hkey _ hcell =>
        hmerges.cell_kept h.made hlater hquiet horders hleads hkey hcell }

theorem Reached.kept (hstates : b.states.Made m₀.world.cells) (hm₀ : m₀.Made)
    (h : Reached app b m₀ given bound m) : Kept b given bound m := by
  induction h with
  | new d => exact kept_bind hstates hm₀ d
  | sync _ d ih => exact ih.sync d
  | happens _ hhappens ih => exact ih.happens hhappens

/-- Syncing keeps binding and document together. Along every run of documents taken over, behaviors
invoked and cells written, the document is the one given last and the binding is current for it. The
next document is bound anew unless its state and scripts are equal by value to those at hand, and
then no cell, no value and no behavior changes. If it is bound anew, the keys of its initial state
name new cells with its values, all other keys the cells of the application, which keep theirs, and
no script of an earlier binding ever changes one of the new cells unless a handler does. -/
theorem reached_syncs (hstates : b.states.Made m₀.world.cells) (hm₀ : m₀.Made)
    (h : Reached app b m₀ given bound m) :
    Kept b given bound m ∧ ∀ d : Document,
      bound.Syncs app m d (bound.sync d m).1 (bound.sync d m).2.1 (bound.sync d m).2.2 := by
  have hkept := h.kept hstates hm₀
  exact ⟨hkept, hkept.syncs⟩

theorem reached_syncs_rebound :
    let m₀ : Machine Unit := { world := { cells := ⟨[.bool false]⟩ }, app := () }
    let b : Binder := { states := [("alias", 0)] }
    let d : Document :=
      { initialState := .ofFields [("open", .bool true)]
        actions := .ofList [("go", [.toggleState "open", .toggleState "alias"])]
        root := default }
    let d' : Document := { d with initialState := .ofFields [("open", .null)] }
    ∃ bound m, Reached .inert b m₀ d bound m ∧
      m.world.cells.values = [.bool true, .bool false] ∧
      (bound.sync d m).1 = false ∧ (bound.sync d m).2.2 = m ∧
      (bound.sync d' m).1 = true ∧
      b.Merges d' m (bound.sync d' m).2.1.binding (bound.sync d' m).2.2 ∧
      ∀ m₁ cell, (bound.sync d' m).2.2.Runs .inert (bound.binding.invocations ["go"]) m₁ →
        KeyMap.get? (bound.sync d' m).2.1.binding.states "open" = some cell →
        m₁.world.cells.get? cell = (bound.sync d' m).2.2.world.cells.get? cell := by
  intro m₀ b d d'
  let binding : Binding :=
    { states := [("alias", 0), ("open", 1)]
      behaviors := [("go", .script 0 [.toggleState "open", .toggleState "alias"])]
      dispatcher := 0
      initialState := d.initialState
      actions := d.actions }
  let bound : BoundDocument := { binder := b, document := d, binding }
  let m : Machine Unit :=
    { world := { cells := ⟨[.bool false, .bool true]⟩ }
      dispatchers := [{ states := binding.states }]
      app := () }
  have hnew : new b d m₀ = (bound, m) := by
    have hafter : ¬"open" < "alias" := by decide
    have hstates : KeyMap.insertAll b.states [("open", 1)] = binding.states := by
      simp [KeyMap.insertAll, KeyMap.insert, b, binding, hafter]
    have hwired : Binder.wired d m₀ = ([("open", 1)], ⟨[.bool false, .bool true]⟩) := rfl
    simp only [new, Binder.bind_eq, hwired, hstates]
    rfl
  have hstates : b.states.Made m₀.world.cells := by
    intro key cell hcell
    have hentry : key = "alias" ∧ cell = 0 := by
      simpa [b] using KeyMap.mem_of_get? hcell
    simp [m₀, hentry.2]
  have hm₀ : m₀.Made := by
    intro id states h
    simp [m₀, Machine.states?] at h
  have houtcome : ∃ m₁ : Machine Unit, m.Runs .inert (binding.invocations ["go"]) m₁ ∧
      m₁.world.cells.values = [.bool true, .bool false] := ⟨_, ⟨4, rfl⟩, rfl⟩
  obtain ⟨m₁, hruns, hvalues⟩ := houtcome
  have hreached : Reached .inert b m₀ d bound m₁ := by
    have h : Reached .inert b m₀ d (new b d m₀).1 (new b d m₀).2 := .new d
    rw [hnew] at h
    exact h.happens (.run hruns)
  obtain ⟨hkept, hsyncs⟩ := reached_syncs hstates hm₀ hreached
  have hsame : (bound.sync d m₁).1 = false := (hsyncs d).rebound_iff.mpr ⟨rfl, rfl⟩
  have hother : (bound.sync d' m₁).1 = true := by
    refine Bool.eq_true_of_not_eq_false fun h => ?_
    exact absurd ((hsyncs d').rebound_iff.mp h).1 (by decide)
  have hscripts : ∀ order ∈ binding.invocations ["go"], order.ScriptIn m₁ := by
    intro order horder
    exact ⟨0, _, List.mem_singleton.mp horder, Machine.lt_of_states? hkept.registry⟩
  refine ⟨bound, m₁, hreached, hvalues, hsame, ((hsyncs d).same hsame).2, hother,
    (hsyncs d').merges hother, fun m₂ cell hagain hcell => ?_⟩
  exact (hsyncs d').apart hother _ .inert _ ⟨m₂, []⟩ .refl (by simp [Application.inert])
    hscripts (Machine.runs_iff_leads.mp hagain) "open" List.mem_cons_self cell hcell

end BoundDocument

end ScreenDoc
