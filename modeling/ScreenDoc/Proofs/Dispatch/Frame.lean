import ScreenDoc.Proofs.Dispatch.Depths
import ScreenDoc.Proofs.Dispatch.Effect

/-!
# What a run leaves as it is

Registries stay as they are, and so does every cell, except where an action is carried out that is
to write it. The cell counts and not the key: keys that name one cell are written together and go on
reading the same. What is dropped or cannot be carried out leaves a warning and no other trace.
-/

namespace ScreenDoc

variable {σ : Type} {app : Application σ} {m : Machine σ} {id : DispatcherId}

namespace Machine

def cell? (m : Machine σ) (id : DispatcherId) (key : String) : Option CellId :=
  (m.states? id).bind fun states => KeyMap.get? states key

def value? (m : Machine σ) (id : DispatcherId) (key : String) : Option StateValue :=
  (m.states? id).bind fun states => states.value? m.world.cells key

theorem states?_of_dispatcher {d : Dispatcher} (hd : m.dispatchers[id]? = some d) :
    m.states? id = some d.states := by
  rw [states?, hd]
  rfl

end Machine

namespace Moment

variable {c c' : Moment σ}

theorem Leads.states? (h : Leads app c c') (id : DispatcherId) :
    c'.machine.states? id = c.machine.states? id :=
  Machine.states?_eq_of_settings h.settings id

theorem Leads.cell? (h : Leads app c c') (id : DispatcherId) (key : String) :
    c'.machine.cell? id key = c.machine.cell? id key := by
  rw [Machine.cell?, h.states?, Machine.cell?]

/-- The next thing to be done is an action that writes a value to a cell under a key that names it
on the dispatcher. -/
inductive Writes (app : Application σ) (c : Moment σ) (id : DispatcherId) (key : String)
    (cell : CellId) (value : StateValue) : Prop where
  | intro {d : Dispatcher} {action : Action} {rest : List (Task σ)}
    (htasks : c.tasks = .carryOut (.dispatch id action) :: rest)
    (hd : c.machine.dispatchers[id]? = some d) (hroom : d.maxDepth.filter (· < d.depth + 1) = none)
    (hkey : action.writtenKey? = some key) (hcell : c.machine.cell? id key = some cell)
    (heffect : action.effect? app.handles d.states c.machine.world.cells =
      some (.write cell value))

theorem cells_next? (h : c.next? app = some c') :
    c'.machine.world.cells = c.machine.world.cells ∨
      ∃ id key cell value, c.Writes app id key cell value ∧
        c'.machine.world.cells = c.machine.world.cells.set cell value := by
  obtain ⟨task, rest, done, htasks, hdone, rfl⟩ := exists_stepped h
  cases hdone with
  | script => exact .inl rfl
  | external => exact .inl rfl
  | absent => exact .inl rfl
  | dropped => exact .inl rfl
  | @entered id action d hd hroom =>
    cases World.cells_enter app id d.states c.machine.world action with
    | inl hsame => exact .inl hsame
    | inr hwrite =>
      obtain ⟨cell, value, heffect, hcells⟩ := hwrite
      obtain ⟨key, hkey, hcell⟩ := Action.exists_key_of_write heffect
      have hnamed : c.machine.cell? id key = some cell := by
        rw [Machine.cell?, Machine.states?_of_dispatcher hd]
        exact hcell
      exact .inr ⟨id, key, cell, value, .intro htasks hd hroom hkey hnamed heffect, hcells⟩
  | done => exact .inl rfl
  | give => exact .inl rfl
  | leave => exact .inl rfl

theorem Leads.exists_writes (h : Leads app c c') {cell : CellId}
    (hne : c'.machine.world.cells.get? cell ≠ c.machine.world.cells.get? cell) :
    ∃ c₁ c₂ id key value, Leads app c c₁ ∧ c₁.Writes app id key cell value ∧
      c₁.next? app = some c₂ ∧ Leads app c₂ c' := by
  induction h with
  | refl => exact absurd rfl hne
  | @tail c₁ c₂ hleads hnext ih =>
    by_cases hbefore : c₁.machine.world.cells.get? cell = c.machine.world.cells.get? cell
    · rw [← hbefore] at hne
      cases cells_next? hnext with
      | inl hsame => exact absurd (congrArg (Cells.get? · cell) hsame) hne
      | inr hwrites =>
        obtain ⟨id, key, written, value, hwrites, hcells⟩ := hwrites
        by_cases hcell : written = cell
        · exact ⟨c₁, c₂, id, key, value, hleads, hcell ▸ hwrites, hnext, .refl⟩
        · rw [hcells] at hne
          exact absurd (List.getElem?_set_ne hcell) hne
    · obtain ⟨c₃, c₄, id, key, value, hbegin, hwrites, hstep, hend⟩ := ih hbefore
      exact ⟨c₃, c₄, id, key, value, hbegin, hwrites, hstep, hend.tail hnext⟩

end Moment

end ScreenDoc
