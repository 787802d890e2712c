import ScreenDoc.Binding
import ScreenDoc.Proofs.Dispatch.Scripts
import ScreenDoc.Proofs.State.Registry

/-!
# Binding merges without leaking

A binding takes the cells of the application under every key that the document leaves alone, and new
cells under the keys of its initial state. So scripts can reach a cell of the application only by a
key outside the initial state, and bindings share no cells but those of the application, however
much has happened between them.
-/

namespace ScreenDoc

variable {σ : Type} {app : Application σ} {m m' : Machine σ}

/-- What invoking these names one after another asks for; a name of no behavior asks for nothing. -/
def Binding.invocations (b : Binding) (names : List String) : List Order :=
  names.filterMap fun name => (b.behavior? name).map .invoke

namespace Binder

variable {b : Binder} {d : Document} {binding : Binding}

/-- What binding the document on the machine `m` is to give. -/
structure Merges (b : Binder) (d : Document) (m : Machine σ) (binding : Binding)
    (m' : Machine σ) : Prop where
  keys : ∀ key, key ∈ KeyMap.keys binding.states ↔
    key ∈ KeyMap.keys b.states ∨ key ∈ KeyMap.keys d.initialState.fields
  /-- A key of the initial state names a cell that has not been there, with its value. -/
  fresh : ∀ key value, KeyMap.get? d.initialState.fields key = some value →
    ∃ cell, KeyMap.get? binding.states key = some cell ∧ m.world.cells.get? cell = none ∧
      m'.world.cells.get? cell = some (.ofJson value)
  /-- No other key names that cell. -/
  apart : ∀ key other cell, key ∈ KeyMap.keys d.initialState.fields →
    KeyMap.get? binding.states key = some cell → KeyMap.get? binding.states other = some cell →
    other = key
  /-- Every other key names the cell of the application. -/
  outer : ∀ key, key ∉ KeyMap.keys d.initialState.fields →
    KeyMap.get? binding.states key = KeyMap.get? b.states key
  /-- The cells that have been there keep their values. -/
  kept : ∀ cell value, m.world.cells.get? cell = some value →
    m'.world.cells.get? cell = some value
  made : binding.states.Made m'.world.cells
  behaviors : ∀ name, binding.behavior? name =
    ((KeyMap.get? d.actions.entries name).map (.script binding.dispatcher)).or
      (KeyMap.get? b.behaviors name)
  dispatcher : binding.dispatcher = m.dispatchers.length
  /-- The dispatcher is new and acts on just these cells. -/
  dispatchers : m'.dispatchers =
    m.dispatchers ++ [{ states := binding.states, maxDepth := b.maxDepth }]
  sections : binding.initialState = d.initialState ∧ binding.actions = d.actions

/-- The cells for the initial state, and the registry that names them. -/
def wired (d : Document) (m : Machine σ) : Registry × Cells :=
  Registry.ofValues m.world.cells (KeyMap.mapValues StateValue.ofJson d.initialState.fields)

theorem bind_eq (b : Binder) (d : Document) (m : Machine σ) :
    b.bind d m =
      let states := KeyMap.insertAll b.states (wired d m).1
      let dispatcher := m.dispatchers.length
      ({ states
         behaviors := KeyMap.insertAll b.behaviors
           (KeyMap.mapValues (.script dispatcher) d.actions.entries)
         dispatcher
         initialState := d.initialState
         actions := d.actions },
       { m with
         world := { m.world with cells := (wired d m).2 }
         dispatchers := m.dispatchers ++ [{ states, maxDepth := b.maxDepth }] }) :=
  rfl

theorem get?_states (b : Binder) (d : Document) (m : Machine σ) (key : String) :
    KeyMap.get? (b.bind d m).1.states key =
      (KeyMap.get? (wired d m).1 key).or (KeyMap.get? b.states key) := by
  have hnodup : (KeyMap.keys (wired d m).1).Nodup := by
    rw [wired, Registry.ofValues_eq]
    exact (KeyMap.sorted_ofList _).nodup
  rw [bind_eq, KeyMap.get?_insertAll hnodup]

section Wired

variable {key : String} {cell : CellId}

theorem nodup_keys_values (d : Document) :
    (KeyMap.keys (KeyMap.mapValues StateValue.ofJson d.initialState.fields)).Nodup := by
  rw [KeyMap.keys_mapValues]
  exact d.initialState.sorted_fields.nodup

theorem get?_wired_eq_none_iff :
    KeyMap.get? (wired d m).1 key = none ↔ key ∉ KeyMap.keys d.initialState.fields := by
  rw [wired, Registry.get?_ofValues_eq_none_iff (nodup_keys_values d), KeyMap.keys_mapValues]

private theorem isSome_wired_iff :
    (KeyMap.get? (wired d m).1 key).isSome ↔ key ∈ KeyMap.keys d.initialState.fields := by
  rw [Option.isSome_iff_ne_none]
  exact (not_congr get?_wired_eq_none_iff).trans not_not

theorem le_and_lt_of_wired (h : KeyMap.get? (wired d m).1 key = some cell) :
    m.world.cells.values.length ≤ cell ∧ cell < (wired d m).2.values.length :=
  Registry.le_and_lt_of_get?_ofValues (nodup_keys_values d) h

theorem states_cases (h : KeyMap.get? (b.bind d m).1.states key = some cell) :
    KeyMap.get? (wired d m).1 key = some cell ∨
      KeyMap.get? (wired d m).1 key = none ∧ KeyMap.get? b.states key = some cell := by
  rwa [get?_states, Option.or_eq_some_iff] at h

theorem length_le_wired (d : Document) (m : Machine σ) :
    m.world.cells.values.length ≤ (wired d m).2.values.length := by
  rw [wired, Registry.ofValues_eq]
  simp

end Wired

theorem merges_bind (hstates : b.states.Made m.world.cells) :
    b.Merges d m (b.bind d m).1 (b.bind d m).2 where
  keys key := by
    rw [← KeyMap.get?_isSome_iff, get?_states, Option.isSome_or, Bool.or_eq_true, or_comm,
      KeyMap.get?_isSome_iff, isSome_wired_iff]
  fresh key value hvalue := by
    have hentry : KeyMap.get? (KeyMap.mapValues StateValue.ofJson d.initialState.fields) key =
        some (.ofJson value) := by
      rw [KeyMap.get?_mapValues, hvalue]
      rfl
    obtain ⟨cell, hcell, hnew, hset⟩ :=
      Registry.exists_get?_ofValues m.world.cells (nodup_keys_values d) hentry
    exact ⟨cell, by rw [get?_states, wired, hcell, Option.some_or], hnew, hset⟩
  apart key other cell hkey hcell hother := by
    have hwired : KeyMap.get? (wired d m).1 key = some cell := by
      refine (states_cases hcell).resolve_right fun h => ?_
      exact get?_wired_eq_none_iff.mp h.1 hkey
    cases states_cases hother with
    | inl hnew => exact Registry.eq_of_get?_ofValues (nodup_keys_values d) hwired hnew
    | inr houter =>
      have hle := (le_and_lt_of_wired hwired).1
      exact absurd (hstates other cell houter.2) (Nat.not_lt.mpr hle)
  outer key hkey := by
    rw [get?_states, get?_wired_eq_none_iff.mpr hkey, Option.none_or]
  kept cell value hvalue := by
    obtain ⟨hlt, _⟩ := List.getElem?_eq_some_iff.mp hvalue
    exact (Registry.get?_cells_ofValues_lt hlt).trans hvalue
  made key cell hcell := by
    cases states_cases hcell with
    | inl hnew => exact (le_and_lt_of_wired hnew).2
    | inr houter => exact (hstates key cell houter.2).trans_le (length_le_wired d m)
  behaviors name := by
    have hnodup : (KeyMap.keys (KeyMap.mapValues (Behavior.script m.dispatchers.length)
        d.actions.entries)).Nodup := by
      rw [KeyMap.keys_mapValues]
      exact d.actions.nodup_keys
    rw [Binding.behavior?, bind_eq, KeyMap.get?_insertAll hnodup, KeyMap.get?_mapValues]
  dispatcher := rfl
  dispatchers := rfl
  sections := ⟨rfl, rfl⟩

end Binder

/-! ## What happens later -/

theorem Moment.Leads.length_cells {c c' : Moment σ} (h : Leads app c c') :
    c'.machine.world.cells.values.length = c.machine.world.cells.values.length := by
  induction h with
  | refl => rfl
  | tail _ hnext ih =>
    cases cells_next? hnext with
    | inl hsame => rw [hsame, ih]
    | inr hwrites =>
      obtain ⟨_, _, cell, value, _, hcells⟩ := hwrites
      rw [hcells, Cells.length_set, ih]

namespace Machine

def writeCell (m : Machine σ) (cell : CellId) (value : StateValue) : Machine σ :=
  { m with world := { m.world with cells := m.world.cells.set cell value } }

/-- What can happen to a machine: a run that ends, a write from outside, a binding. -/
inductive Happens (app : Application σ) : Machine σ → Machine σ → Prop where
  | run {m m' : Machine σ} {orders : List Order} (hruns : m.Runs app orders m') : Happens app m m'
  | write {m : Machine σ} (cell : CellId) (value : StateValue) :
    Happens app m (m.writeCell cell value)
  | bind {m : Machine σ} {b : Binder} {d : Document} (hstates : b.states.Made m.world.cells)
    : Happens app m (b.bind d m).2

/-- The machine `m'` is what `m` has become. -/
def Later (app : Application σ) : Machine σ → Machine σ → Prop :=
  Relation.ReflTransGen (Happens app)

/-- On every dispatcher, the keys name cells that have been made. -/
def Made (m : Machine σ) : Prop :=
  ∀ id states, m.states? id = some states → states.Made m.world.cells

theorem lt_of_states? {id : DispatcherId} {states : Registry} (h : m.states? id = some states) :
    id < m.dispatchers.length := by
  obtain ⟨dispatcher, hd, _⟩ := Option.map_eq_some_iff.mp h
  exact (List.getElem?_eq_some_iff.mp hd).1

theorem states?_bind (b : Binder) (d : Document) (m : Machine σ) (id : DispatcherId) :
    (b.bind d m).2.states? id =
      if id = m.dispatchers.length then some (b.bind d m).1.states else m.states? id := by
  rw [Machine.states?, Machine.states?, Binder.bind_eq]
  obtain hlt | rfl | hgt := Nat.lt_trichotomy id m.dispatchers.length
  · rw [if_neg hlt.ne, List.getElem?_append_left hlt]
  · rw [if_pos rfl, List.getElem?_concat_length, Option.map_some]
  · rw [if_neg hgt.ne', List.getElem?_eq_none hgt.le,
      List.getElem?_eq_none (List.length_append.trans_le hgt)]

theorem made_bind (hm : m.Made) {b : Binder} {d : Document} (hstates : b.states.Made m.world.cells)
    : (b.bind d m).2.Made := by
  intro id states hid
  rw [states?_bind] at hid
  split at hid
  · cases hid
    exact (Binder.merges_bind hstates).made
  · exact (hm id states hid).mono (Binder.length_le_wired d m)

theorem Happens.states? (h : m.Happens app m') {id : DispatcherId} {states : Registry}
    (hid : m.states? id = some states) : m'.states? id = some states := by
  cases h with
  | run hruns => rw [(runs_iff_leads.mp hruns).states?, hid]
  | write => exact hid
  | bind => rw [states?_bind, if_neg (lt_of_states? hid).ne, hid]

theorem Happens.length_le (h : m.Happens app m') :
    m.world.cells.values.length ≤ m'.world.cells.values.length := by
  cases h with
  | run hruns => exact (runs_iff_leads.mp hruns).length_cells.ge
  | write cell value => exact (Cells.length_set m.world.cells cell value).ge
  | bind => exact Binder.length_le_wired _ m

theorem Happens.made (h : m.Happens app m') (hm : m.Made) : m'.Made := by
  cases h with
  | run hruns =>
    have hleads := runs_iff_leads.mp hruns
    intro id states hid
    rw [hleads.states?] at hid
    exact (hm id states hid).mono hleads.length_cells.ge
  | write cell value =>
    exact fun id states hid => (hm id states hid).mono (Cells.length_set _ cell value).ge
  | bind hstates => exact made_bind hm hstates

theorem Later.states? (h : m.Later app m') {id : DispatcherId} {states : Registry}
    (hid : m.states? id = some states) : m'.states? id = some states := by
  induction h with
  | refl => exact hid
  | tail _ hlast ih => exact hlast.states? ih

theorem Later.length_le (h : m.Later app m') :
    m.world.cells.values.length ≤ m'.world.cells.values.length := by
  induction h with
  | refl => exact Nat.le_refl _
  | tail _ hlast ih => exact ih.trans hlast.length_le

end Machine

namespace Binder

variable {b : Binder} {d : Document} {binding : Binding}

theorem Merges.states? (h : b.Merges d m binding m') :
    m'.states? binding.dispatcher = some binding.states := by
  refine Machine.states?_of_dispatcher (d := ⟨binding.states, b.maxDepth, 0⟩) ?_
  rw [h.dispatchers, h.dispatcher, List.getElem?_concat_length]

theorem Merges.notMem_of_lt (h : b.Merges d m binding m') {key : String} {cell : CellId}
    (hkey : KeyMap.get? binding.states key = some cell)
    (hcell : cell < m.world.cells.values.length) : key ∉ KeyMap.keys d.initialState.fields := by
  intro hmem
  obtain ⟨value, hvalue⟩ := Option.isSome_iff_exists.mp (KeyMap.get?_isSome_iff.mpr hmem)
  obtain ⟨new, hnew, hnone, _⟩ := h.fresh key value hvalue
  cases hkey.symm.trans hnew
  exact Nat.not_lt.mpr (Cells.get?_eq_none_iff.mp hnone) hcell

private theorem Merges.script_of_mem (h : b.Merges d m binding m') {names : List String}
    (hnames : ∀ name ∈ names, name ∈ KeyMap.keys d.actions.entries) {order : Order}
    (horder : order ∈ binding.invocations names) :
    ∃ name ∈ names, ∃ actions, KeyMap.get? d.actions.entries name = some actions ∧
      order = .invoke (.script binding.dispatcher actions) := by
  obtain ⟨name, hname, hbehavior⟩ := List.mem_filterMap.mp horder
  obtain ⟨actions, hactions⟩ :=
    Option.isSome_iff_exists.mp (KeyMap.get?_isSome_iff.mpr (hnames name hname))
  rw [h.behaviors, hactions] at hbehavior
  exact ⟨name, hname, actions, hactions, (Option.some.inj hbehavior).symm⟩

/-- One of these scripts is to write this cell of the application, under a key that the document
leaves alone. -/
def WritesOuter (b : Binder) (d : Document) (names : List String) (cell : CellId) : Prop :=
  ∃ name ∈ names, ∃ actions key, KeyMap.get? d.actions.entries name = some actions ∧
    (∃ action ∈ actions, action.Names key) ∧ key ∉ KeyMap.keys d.initialState.fields ∧
    KeyMap.get? b.states key = some cell

private theorem Merges.writesOuter (h : b.Merges d m binding m') {m₁ : Machine σ}
    (hm₁ : m₁.states? binding.dispatcher = some binding.states)
    (hquiet : ∀ customType, ¬app.handles customType) {names : List String}
    (hnames : ∀ name ∈ names, name ∈ KeyMap.keys d.actions.entries) {c : Moment σ}
    (hleads : Moment.Leads app ⟨m₁, (binding.invocations names).map .carryOut⟩ c) {cell : CellId}
    (hcell : cell < m.world.cells.values.length)
    (hne : c.machine.world.cells.get? cell ≠ m₁.world.cells.get? cell) :
    b.WritesOuter d names cell := by
  let allowed (id : DispatcherId) (key : String) : Prop :=
    id = binding.dispatcher ∧ ∃ name ∈ names, ∃ actions,
      KeyMap.get? d.actions.entries name = some actions ∧ ∃ action ∈ actions, action.Names key
  have hconfined : ∀ task ∈ (binding.invocations names).map (@Task.carryOut σ),
      task.Confined allowed := by
    rw [List.forall_mem_map]
    intro order horder
    obtain ⟨name, hname, actions, hactions, rfl⟩ := h.script_of_mem hnames horder
    intro action haction key hkey
    exact ⟨rfl, name, hname, actions, hactions, action, haction, hkey⟩
  obtain ⟨id, key, ⟨rfl, name, hname, actions, hactions, hkey⟩, hnamed⟩ :=
    hleads.exists_named hquiet hconfined hne
  rw [Machine.cell?, hm₁, Option.bind_some] at hnamed
  have houtside := h.notMem_of_lt hnamed hcell
  exact ⟨name, hname, actions, key, hactions, hkey, houtside, h.outer key houtside ▸ hnamed⟩

/-- A cell that two bindings of one binder both name is one of the application, under all of their
keys for it. -/
theorem Merges.outer_of_shared (h : b.Merges d m binding m') {d' : Document} {binding' : Binding}
    {m₁ m₂ : Machine σ} (hlater : m'.Later app m₁)
    (h' : b.Merges d' m₁ binding' m₂) (hstates : b.states.Made m.world.cells) {key key' : String}
    {cell : CellId} (hkey : KeyMap.get? binding.states key = some cell)
    (hkey' : KeyMap.get? binding'.states key' = some cell) :
    KeyMap.get? b.states key = some cell ∧ KeyMap.get? b.states key' = some cell := by
  -- The cell is older than the second binding, so that one has it from the application.
  have hold : cell < m₁.world.cells.values.length :=
    (h.made key cell hkey).trans_le hlater.length_le
  have houter' : KeyMap.get? b.states key' = some cell :=
    h'.outer key' (h'.notMem_of_lt hkey' hold) ▸ hkey'
  have houtside := h.notMem_of_lt hkey (hstates key' cell houter')
  exact ⟨h.outer key houtside ▸ hkey, houter'⟩

/-- What holds of a binding on what the machine has become. -/
structure KeepsApart (b : Binder) (d : Document) (binding : Binding) (m₁ : Machine σ) : Prop where
  /-- The cells of the application are still there. -/
  outer : b.states.Made m₁.world.cells
  /-- The dispatcher still acts on just the cells of the binding. -/
  registry : m₁.states? binding.dispatcher = some binding.states
  /-- Scripts that run without handlers change a cell of the application only as they are to. -/
  scripts : ∀ (quiet : Application σ) (names : List String) (c : Moment σ) (key : String)
    (cell : CellId), (∀ customType, ¬quiet.handles customType) →
    (∀ name ∈ names, name ∈ KeyMap.keys d.actions.entries) →
    Moment.Leads quiet ⟨m₁, (binding.invocations names).map .carryOut⟩ c →
    KeyMap.get? b.states key = some cell →
    c.machine.world.cells.get? cell ≠ m₁.world.cells.get? cell → b.WritesOuter d names cell
  /-- The binder binds as before, and both bindings share no cell but those of the application. -/
  again : ∀ (d' : Document) (binding' : Binding) (m₂ : Machine σ),
    b.bind d' m₁ = (binding', m₂) →
    b.Merges d' m₁ binding' m₂ ∧ ∀ key key' cell,
      KeyMap.get? binding.states key = some cell →
      KeyMap.get? binding'.states key' = some cell →
      KeyMap.get? b.states key = some cell ∧ KeyMap.get? b.states key' = some cell

/-- Binding merges without leaking. The keys of the initial state name new cells of their own, with
its values, and all other keys the cells of the application; names of scripts run the scripts on a
new dispatcher that acts on just these cells, and all other names what the application brings along.
However much happens later, the binding reaches the cells of the application only by keys outside
the initial state, and no other binding of the binder shares any other cell with it. -/
theorem bind_merges (app : Application σ) (hstates : b.states.Made m.world.cells)
    (hbind : b.bind d m = (binding, m')) :
    b.Merges d m binding m' ∧ ∀ m₁, m'.Later app m₁ → b.KeepsApart d binding m₁ := by
  have hmerges : b.Merges d m binding m' := by
    have h := merges_bind (b := b) (d := d) hstates
    rwa [hbind] at h
  have hgrown : m.world.cells.values.length ≤ m'.world.cells.values.length := by
    have h : _ ≤ (b.bind d m).2.world.cells.values.length := length_le_wired d m
    rwa [hbind] at h
  refine ⟨hmerges, fun m₁ hlater => ?_⟩
  have hmade : b.states.Made m₁.world.cells := hstates.mono (hgrown.trans hlater.length_le)
  have hregistry : m₁.states? binding.dispatcher = some binding.states :=
    hlater.states? hmerges.states?
  refine ⟨hmade, hregistry, ?scripts, ?again⟩
  case scripts =>
    intro quiet names c key cell hquiet hnames hleads hkey hne
    exact hmerges.writesOuter hregistry hquiet hnames hleads (hstates key cell hkey) hne
  case again =>
    intro d' binding' m₂ hbind'
    have hmerges' : b.Merges d' m₁ binding' m₂ := by
      have h := merges_bind (b := b) (d := d') hmade
      rwa [hbind'] at h
    exact ⟨hmerges', fun key key' cell hkey hkey' =>
      hmerges.outer_of_shared hlater hmerges' hstates hkey hkey'⟩

theorem bind_merges_aliased :
    let m : Machine Unit := { world := { cells := ⟨[.bool false]⟩ }, app := () }
    let b : Binder := { states := [("alias", 0), ("open", 0)] }
    let d : Document :=
      { initialState := .ofFields [("open", .bool true)]
        actions := .ofList [("go", [.toggleState "open", .sequence [.toggleState "alias"]])]
        root := default }
    ∃ binding m' m₁, b.bind d m = (binding, m') ∧ b.Merges d m binding m' ∧
      m'.Runs .inert (binding.invocations ["go"]) m₁ ∧
      m₁.world.cells.values = [.bool true, .bool false] ∧
      b.WritesOuter d ["go"] 0 ∧
      b.Merges d m₁ (b.bind d m₁).1 (b.bind d m₁).2 := by
  intro m b d
  let binding : Binding :=
    { states := [("alias", 0), ("open", 1)]
      behaviors := KeyMap.mapValues (.script 0) d.actions.entries
      dispatcher := 0
      initialState := d.initialState
      actions := d.actions }
  let m' : Machine Unit :=
    { world := { cells := ⟨[.bool false, .bool true]⟩ }
      dispatchers := [{ states := binding.states }]
      app := () }
  have hbind : b.bind d m = (binding, m') := by
    have hafter : ¬"open" < "alias" := by decide
    have hstates : KeyMap.insertAll b.states [("open", 1)] = binding.states := by
      simp [KeyMap.insertAll, KeyMap.insert, b, binding, hafter]
    have hwired : wired d m = ([("open", 1)], ⟨[.bool false, .bool true]⟩) := rfl
    simp only [bind_eq, hwired, hstates]
    rfl
  have hstates : b.states.Made m.world.cells := by
    intro key cell hcell
    have hentry : (key = "alias" ∨ key = "open") ∧ cell = 0 := by
      simpa [b, ← or_and_right] using KeyMap.mem_of_get? hcell
    simp [m, hentry.2]
  obtain ⟨hmerges, hlater⟩ := bind_merges .inert hstates hbind
  have houtcome : ∃ m₁ : Machine Unit, m'.Runs .inert (binding.invocations ["go"]) m₁ ∧
      m₁.world.cells.values = [.bool true, .bool false] := ⟨_, ⟨4, rfl⟩, rfl⟩
  obtain ⟨m₁, hruns, hvalues⟩ := houtcome
  have houter : b.WritesOuter d ["go"] 0 := by
    refine (hlater m' .refl).scripts .inert ["go"] ⟨m₁, []⟩ "open" 0 (by simp [Application.inert])
      (List.forall_mem_singleton.mpr List.mem_cons_self) (Machine.runs_iff_leads.mp hruns) rfl ?_
    rw [Cells.get?, hvalues]
    simp [m', Cells.get?]
  have hagain := (hlater m₁ (.single (.run hruns))).again d _ _ rfl
  exact ⟨binding, m', m₁, hbind, hmerges, hruns, hvalues, houter, hagain.1⟩

end Binder

end ScreenDoc
