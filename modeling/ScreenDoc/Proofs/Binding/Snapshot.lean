import ScreenDoc.Proofs.Binding.Merge
import ScreenDoc.Proofs.State.Value

/-!
# Snapshots of bindings

A binding of a document alone holds, throughout every run, nothing but what it began with, what
`SetState` actions have put there, and booleans that were turned over. All of these are forms of
JSON values; so a document that begins with a snapshot has the same keys with the same values, but
for the doubles that are not finite, which a snapshot can only write as `null`.
-/

namespace ScreenDoc

variable {σ : Type} {app : Application σ}

namespace Binder

variable {b : Binder} {d : Document}

theorem keys_states_bind (hb : b.states = []) (m : Machine σ) :
    KeyMap.keys (b.bind d m).1.states = KeyMap.keys d.initialState.fields := by
  let entries := KeyMap.mapValues StateValue.ofJson d.initialState.fields
  have hkeys : KeyMap.keys (Registry.numbered m.world.cells entries) =
      KeyMap.keys d.initialState.fields := by
    rw [Registry.keys_numbered, KeyMap.keys_mapValues]
  have hsorted : KeyMap.Sorted (Registry.numbered m.world.cells entries) := by
    rw [KeyMap.Sorted, hkeys]
    exact d.initialState.sorted_fields
  have hwired : (wired d m).1 = Registry.numbered m.world.cells entries := by
    rw [wired, Registry.ofValues_eq]
    exact KeyMap.ofList_of_sorted hsorted
  calc KeyMap.keys (KeyMap.insertAll b.states (wired d m).1)
    _ = KeyMap.keys (KeyMap.ofList (wired d m).1) := by rw [hb, KeyMap.ofList]
    _ = KeyMap.keys (Registry.numbered m.world.cells entries) := by
      rw [hwired, KeyMap.ofList_of_sorted hsorted]
    _ = KeyMap.keys d.initialState.fields := hkeys

theorem made_of_states_nil (hb : b.states = []) (cells : Cells) : b.states.Made cells := by
  intro key cell h
  rw [hb] at h
  cases h

theorem value?_bind (hb : b.states = []) (m : Machine σ) (key : String) :
    (b.bind d m).1.states.value? (b.bind d m).2.world.cells key =
      (KeyMap.get? d.initialState.fields key).map StateValue.ofJson := by
  have hmerges := merges_bind (d := d) (made_of_states_nil hb m.world.cells)
  cases hinitial : KeyMap.get? d.initialState.fields key with
  | none =>
    have hkey := KeyMap.get?_eq_none_iff.mp hinitial
    rw [Registry.value?, hmerges.outer key hkey, hb]
    rfl
  | some value =>
    obtain ⟨cell, hcell, -, hvalue⟩ := hmerges.fresh key value hinitial
    rw [Registry.value?, hcell]
    exact hvalue

end Binder

namespace Moment

variable {c c' c'' : Moment σ} {cell : CellId} {j : Json}

/-- On the way from one moment to another an action has put this JSON value into the cell: the
value that it is to set, or the boolean that it has turned over. -/
inductive Sets (app : Application σ) (c c' : Moment σ) (cell : CellId) : Json → Prop where
  | set {c₁ c₂ : Moment σ} {id : DispatcherId} {key : String} {value : Json.Value}
    {rest : List (Task σ)} (hbefore : Leads app c c₁)
    (htasks : c₁.tasks = .carryOut (.dispatch id (.setState key value)) :: rest)
    (hwrites : c₁.Writes app id key cell (.ofJson value.json)) (hnext : c₁.next? app = some c₂)
    (hafter : Leads app c₂ c') : Sets app c c' cell value.json
  | toggle {c₁ c₂ : Moment σ} {id : DispatcherId} {key : String} {flag : Bool}
    {rest : List (Task σ)} (hbefore : Leads app c c₁)
    (htasks : c₁.tasks = .carryOut (.dispatch id (.toggleState key)) :: rest)
    (hvalue : c₁.machine.world.cells.get? cell = some (.bool flag))
    (hwrites : c₁.Writes app id key cell (.bool !flag)) (hnext : c₁.next? app = some c₂)
    (hafter : Leads app c₂ c') : Sets app c c' cell (.bool !flag)

theorem Sets.leads (h : Sets app c c' cell j) (hleads : Leads app c' c'') :
    Sets app c c'' cell j := by
  cases h with
  | set hbefore htasks hwrites hnext hafter =>
    exact .set hbefore htasks hwrites hnext (hafter.trans hleads)
  | toggle hbefore htasks hvalue hwrites hnext hafter =>
    exact .toggle hbefore htasks hvalue hwrites hnext (hafter.trans hleads)

theorem Writes.exists_sets {id : DispatcherId} {key : String} {value : StateValue}
    (h : c'.Writes app id key cell value) (hleads : Leads app c c')
    (hnext : c'.next? app = some c'') :
    ∃ j, StateValue.ofJson j = value ∧ Sets app c c'' cell j := by
  have hwrites := h
  obtain ⟨htasks, -, -, hkey, -, heffect⟩ := h
  rcases Action.cases_of_write heffect with ⟨k, j, rfl, rfl⟩ | ⟨k, flag, rfl, hvalue, rfl⟩
  · obtain rfl : k = key := Option.some.inj hkey
    exact ⟨j.json, rfl, .set hleads htasks hwrites hnext .refl⟩
  · obtain rfl : k = key := Option.some.inj hkey
    exact ⟨.bool !flag, rfl, .toggle hleads htasks hvalue hwrites hnext .refl⟩

theorem Leads.exists_sets (h : Leads app c c') {value : StateValue}
    (hvalue : c'.machine.world.cells.get? cell = some value) :
    c.machine.world.cells.get? cell = some value ∨
      ∃ j, StateValue.ofJson j = value ∧ Sets app c c' cell j := by
  induction h generalizing value with
  | refl => exact .inl hvalue
  | @tail c₁ c₂ hleads hnext ih =>
    have hearlier (hvalue : c₁.machine.world.cells.get? cell = some value) :
        c.machine.world.cells.get? cell = some value ∨
          ∃ j, StateValue.ofJson j = value ∧ Sets app c c₂ cell j :=
      (ih hvalue).imp_right fun ⟨j, hj, hsets⟩ => ⟨j, hj, hsets.leads (.single hnext)⟩
    cases cells_next? hnext with
    | inl hsame => exact hearlier (hsame ▸ hvalue)
    | inr hwrites =>
      obtain ⟨id, key, written, value', hwrites, hcells⟩ := hwrites
      by_cases hcell : written = cell
      · subst hcell
        rw [hcells, Cells.get?, Cells.set, List.getElem?_set_self'] at hvalue
        obtain ⟨-, -, rfl⟩ := Option.map_eq_some_iff.mp hvalue
        exact .inr (hwrites.exists_sets hleads hnext)
      · rw [hcells, Cells.get?, Cells.set, List.getElem?_set_ne hcell] at hvalue
        exact hearlier hvalue

end Moment

namespace Binder

variable {b : Binder} {d : Document} {m : Machine σ} {orders : List Order} {c : Moment σ}

/-- Every host of a document that is bound alone holds a form of a JSON value: that of its initial
state or one that was set on the way. -/
theorem exists_json_of_value? (hb : b.states = [])
    (hrun : Moment.Leads app ⟨(b.bind d m).2, orders.map .carryOut⟩ c) {key : String}
    {value : StateValue}
    (hvalue : (b.bind d m).1.states.value? c.machine.world.cells key = some value) :
    ∃ j, StateValue.ofJson j = value ∧
      (KeyMap.get? d.initialState.fields key = some j ∨
        ∃ cell, KeyMap.get? (b.bind d m).1.states key = some cell ∧
          Moment.Sets app ⟨(b.bind d m).2, orders.map .carryOut⟩ c cell j) := by
  obtain ⟨cell, hcell, hvalue⟩ := Option.bind_eq_some_iff.mp hvalue
  rcases hrun.exists_sets hvalue with hbefore | ⟨j, hj, hsets⟩
  · have hbegin := value?_bind (d := d) hb m key
    rw [Registry.value?, hcell, Option.bind_some, hbefore] at hbegin
    obtain ⟨j, hj, hvalue⟩ := Option.map_eq_some_iff.mp hbegin.symm
    exact ⟨j, hvalue, .inl hj⟩
  · exact ⟨j, hj, .inr ⟨cell, hcell, hsets⟩⟩

private theorem snapshot_of_leads (hb : b.states = [])
    (hrun : Moment.Leads app ⟨(b.bind d m).2, orders.map .carryOut⟩ c) :
    KeyMap.keys ((b.bind d m).1.states.snapshot c.machine.world.cells).fields =
        KeyMap.keys d.initialState.fields ∧
      ∀ key, KeyMap.get? ((b.bind d m).1.states.snapshot c.machine.world.cells).fields key =
        ((b.bind d m).1.states.value? c.machine.world.cells key).map StateValue.toJson := by
  have hkeys := keys_states_bind (d := d) hb m
  have hsorted : KeyMap.Sorted (b.bind d m).1.states := by
    rw [KeyMap.Sorted, hkeys]
    exact d.initialState.sorted_fields
  have hmade : (b.bind d m).1.states.Made c.machine.world.cells :=
    (merges_bind (made_of_states_nil hb _)).made.mono hrun.length_cells.ge
  exact ⟨(Registry.keys_snapshot hsorted hmade).trans hkeys,
    Registry.get?_snapshot hsorted hmade⟩

/-- Snapshots restore what JSON can say. Bound again with a snapshot from any moment of a run as its
initial state, a document has the same keys and the same values, but that a double that is not
finite comes back as `null`. What a host holds was set by the initial state or by an action, and is
written as `null` only if it was set as `null` or as a string that reads as such a double. -/
theorem bind_snapshot (hb : b.states = [])
    (hrun : Moment.Leads app ⟨(b.bind d m).2, orders.map .carryOut⟩ c) :
    let states := (b.bind d m).1.states
    let cells := c.machine.world.cells
    let d' : Document := { d with initialState := states.snapshot cells }
    (∀ m' : Machine σ, KeyMap.keys (b.bind d' m').1.states = KeyMap.keys states ∧
      ∀ key, (b.bind d' m').1.states.value? (b.bind d' m').2.world.cells key =
        (states.value? cells key).map StateValue.restored) ∧
    ∀ key value, states.value? cells key = some value →
      (∃ j, StateValue.ofJson j = value ∧
        (KeyMap.get? d.initialState.fields key = some j ∨
          ∃ cell, KeyMap.get? states key = some cell ∧
            Moment.Sets app ⟨(b.bind d m).2, orders.map .carryOut⟩ c cell j)) ∧
      ∀ j, StateValue.ofJson j = value → (∀ n, j = .number n → n.InRange) →
        (KeyMap.get? (states.snapshot cells).fields key = some .null ↔
          j = .null ∨ ∃ s, j = .string s ∧ (StateValue.ofContent s).isFinite = false) := by
  intro states cells d'
  obtain ⟨hkeys, hget⟩ := snapshot_of_leads hb hrun
  refine ⟨fun m' => ⟨?_, fun key => ?_⟩, fun key value hvalue => ?_⟩
  · rw [keys_states_bind hb, hkeys, keys_states_bind hb]
  · rw [value?_bind hb, hget, Option.map_map]
    refine Option.map_congr fun value hvalue => ?_
    obtain ⟨j, rfl, -⟩ := exists_json_of_value? hb hrun hvalue
    exact (StateValue.settled_ofJson j).ofJson_toJson
  · refine ⟨exists_json_of_value? hb hrun hvalue, fun j hj hrange => ?_⟩
    rw [hget, hvalue, Option.map_some, Option.some_inj, ← hj]
    exact StateValue.toJson_ofJson_eq_null_iff hrange

/-- A host that a script has set to the text of an integer holds the integer, and so does the host
of the document that begins with the snapshot. -/
theorem bind_snapshot_count :
    let d : Document :=
      { initialState := .ofFields [("count", .null)]
        actions := .ofList [("fill", [.setState "count" (.ofJson (.string "+42"))])]
        root := .plainText "" }
    let m : Machine Unit := { app := () }
    let bound := Binder.bind {} d m
    ∃ c : Moment Unit,
      Moment.Leads .inert ⟨bound.2, (bound.1.invocations ["fill"]).map .carryOut⟩ c ∧
      bound.1.states.value? c.machine.world.cells "count" = some (.int 42) ∧
      let d' : Document := { d with initialState := bound.1.states.snapshot c.machine.world.cells }
      (Binder.bind {} d' m).1.states.value? (Binder.bind {} d' m).2.world.cells "count" =
        some (.int 42) := by
  intro d m bound
  have houtcome : ∃ outcome : Machine Unit,
      bound.2.Runs .inert (bound.1.invocations ["fill"]) outcome ∧
        bound.1.states.value? outcome.world.cells "count" = some (.int 42) :=
    ⟨_, ⟨2, rfl⟩, rfl⟩
  obtain ⟨outcome, hruns, hvalue⟩ := houtcome
  have hleads := Machine.runs_iff_leads.mp hruns
  have hsame := ((bind_snapshot rfl hleads).1 m).2 "count"
  rw [hvalue] at hsame
  exact ⟨_, hleads, hvalue, hsame⟩

/-- The string "inf" becomes an infinite double, is written as `null` and comes back as nothing. -/
theorem bind_snapshot_infinite :
    let d : Document :=
      { initialState := .ofFields [("limit", .string "inf")], root := .plainText "" }
    let m : Machine Unit := { app := () }
    let bound := Binder.bind {} d m
    let d' : Document := { d with initialState := bound.1.states.snapshot bound.2.world.cells }
    let bound' := Binder.bind {} d' m
    bound.1.states.value? bound.2.world.cells "limit" = some (.float (.infinite false)) ∧
      d'.initialState.fields = [("limit", .null)] ∧
      bound'.1.states.value? bound'.2.world.cells "limit" = some .null ∧
      bound'.1.states.value? bound'.2.world.cells "limit" ≠
        bound.1.states.value? bound.2.world.cells "limit" := by
  intro d m bound d' bound'
  have hbefore : bound.1.states.value? bound.2.world.cells "limit" =
      some (.float (.infinite false)) := rfl
  have hafter : bound'.1.states.value? bound'.2.world.cells "limit" = some .null := rfl
  refine ⟨hbefore, rfl, hafter, ?_⟩
  rw [hbefore, hafter]
  simp

end Binder

end ScreenDoc
