import ScreenDoc.Proofs.Dispatch.DepthLimit

/-!
# Without the limit

A limit on depth shows only in the warnings of the actions that it drops. As long as there are none,
a run with the limit and a run without it go through the same moments side by side, up to the limit
itself. The application sees no limit, so it reacts in the same way in both.
-/

namespace ScreenDoc

variable {σ : Type} {app : Application σ} {m m' : Machine σ} {id : DispatcherId}

/-! ## Records are only added -/

private theorem World.prefix_records_enter {w : World} {states : Registry} {action : Action} :
    w.records <+: (w.enter app id states action).1.records := by
  cases action with
  | setState key value =>
    simp only [enter, setState]
    split <;> simp [warn, record]
  | toggleState key =>
    simp only [enter, toggleState]
    split
    · simp [warn, record]
    · split <;> simp [warn, record]
  | log message => simp [enter, record]
  | sequence actions => exact List.prefix_rfl
  | custom customType params =>
    rw [enter]
    split <;> simp [note, warn, record]

theorem Machine.Stepped.prefix_records {task : Task σ} {done : Moment σ}
    (h : m.Stepped app task done) : m.world.records <+: done.machine.world.records := by
  cases h with
  | script => exact List.prefix_rfl
  | external => exact List.prefix_rfl
  | absent => exact List.prefix_rfl
  | dropped => exact List.prefix_append _ _
  | entered => exact World.prefix_records_enter
  | done => exact List.prefix_rfl
  | give => exact List.prefix_rfl
  | leave => exact List.prefix_rfl

/-! ## Side by side -/

def SinkRecord.isDrop : SinkRecord → Bool
  | .warn (.dropped _ _ _) => true
  | _ => false

def World.drops (w : World) : Nat :=
  w.records.countP SinkRecord.isDrop

private theorem World.drops_eq {w w' : World} (h : w.records <+: w'.records)
    (hnone : ∀ tag depth limit,
      .warn (.dropped tag depth limit) ∉ w'.records.drop w.records.length) :
    w'.drops = w.drops := by
  obtain ⟨added, hadded⟩ := h
  rw [← hadded, List.drop_left] at hnone
  rw [drops, drops, ← hadded, List.countP_append, Nat.add_eq_left, List.countP_eq_zero]
  intro r hr hdrop
  match r, hdrop with
  | .warn (.dropped tag depth limit), _ => exact hnone tag depth limit hr

namespace Machine

def withoutLimit (m : Machine σ) (id : DispatcherId) : Machine σ :=
  { m with dispatchers := m.dispatchers.modify id fun d => { d with maxDepth := none } }

theorem withoutLimit_setDepth (m : Machine σ) (id i : DispatcherId) (depth : Nat) :
    (m.setDepth i depth).withoutLimit id = (m.withoutLimit id).setDepth i depth := by
  by_cases hi : i = id
  · simp [withoutLimit, setDepth, hi, List.modify_modify_eq, Function.comp_def]
  · simp [withoutLimit, setDepth, List.modify_modify_ne _ _ _ hi]

private theorem Stepped.entered_withoutLimit {i : DispatcherId} {action : Action} {d : Dispatcher}
    (hd : m.dispatchers[i]? = some d) (hover : d.maxDepth.filter (· < d.depth + 1) = none) :
    (m.withoutLimit id).Stepped app (.carryOut (.dispatch i action))
      ⟨{ (m.setDepth i (d.depth + 1)).withoutLimit id with
          world := (m.world.enter app i d.states action).1 },
        (m.world.enter app i d.states action).2 ++ [.leave i d.depth]⟩ := by
  rw [withoutLimit_setDepth]
  by_cases hi : id = i
  · subst hi
    have hfree : (m.withoutLimit id).dispatchers[id]? = some { d with maxDepth := none } := by
      simp [withoutLimit, hd]
    exact .entered (d := { d with maxDepth := none }) hfree rfl
  · have hsame : (m.withoutLimit id).dispatchers[i]? = some d := by
      simp [withoutLimit, hi, hd]
    exact .entered hsame hover

/-- A step that drops nothing is the same step without the limit. -/
theorem Stepped.withoutLimit {task : Task σ} {done : Moment σ} (h : m.Stepped app task done)
    (hdrops : done.machine.world.drops = m.world.drops) :
    (m.withoutLimit id).Stepped app task ⟨done.machine.withoutLimit id, done.tasks⟩ := by
  cases h with
  | script => exact .script
  | external => exact .external
  | absent hd => exact .absent (by simpa [Machine.withoutLimit] using hd)
  | dropped => simp [World.drops, World.warn, World.record, SinkRecord.isDrop] at hdrops
  | entered hd hover => exact .entered_withoutLimit hd hover
  | done hnext => exact .done hnext
  | give hnext => exact .give hnext
  | leave =>
    rw [withoutLimit_setDepth]
    exact .leave

end Machine

namespace Moment

variable {c c' : Moment σ}

theorem prefix_records_next? (h : c.next? app = some c') :
    c.machine.world.records <+: c'.machine.world.records := by
  obtain ⟨task, rest, done, _, hdone, rfl⟩ := exists_stepped h
  exact hdone.prefix_records

theorem Leads.prefix_records (h : Leads app c c') :
    c.machine.world.records <+: c'.machine.world.records := by
  induction h with
  | refl => exact List.prefix_rfl
  | tail _ hnext ih => exact ih.trans (prefix_records_next? hnext)

private theorem next?_withoutLimit (h : c.next? app = some c')
    (hdrops : c'.machine.world.drops = c.machine.world.drops) :
    next? app ⟨c.machine.withoutLimit id, c.tasks⟩ =
      some ⟨c'.machine.withoutLimit id, c'.tasks⟩ := by
  obtain ⟨task, rest, done, htasks, hdone, rfl⟩ := exists_stepped h
  rw [htasks]
  exact next?_of_stepped (hdone.withoutLimit hdrops) rest

theorem Leads.withoutLimit (h : Leads app c c')
    (hdrops : c'.machine.world.drops = c.machine.world.drops) :
    Leads app ⟨c.machine.withoutLimit id, c.tasks⟩ ⟨c'.machine.withoutLimit id, c'.tasks⟩ := by
  induction h with
  | refl => exact .refl
  | @tail c₁ c' hleads hnext ih =>
    -- The number of drops never falls, so none of the steps on the way has added one either.
    have hbefore : c.machine.world.drops ≤ c₁.machine.world.drops :=
      (prefix_records hleads).sublist.countP_le
    have hafter : c₁.machine.world.drops ≤ c'.machine.world.drops :=
      (prefix_records_next? hnext).sublist.countP_le
    exact (ih (by omega)).tail (next?_withoutLimit hnext (by omega))

end Moment

/-- A limit makes no difference to a run in which it drops nothing. Orders that stay with a
dispatcher with a limit have an outcome, and whenever orders have an outcome that has no warning of
a dropped action behind the earlier records, they have one without the limit too, with the same
records, calls and cells, and the application ends in the same state. -/
theorem Machine.limit_transparent (app : Application σ) (m : Machine σ) (id : DispatcherId)
    (orders : List Order) :
    (∀ d limit, m.dispatchers[id]? = some d → d.maxDepth = some limit → app.StaysWith id →
      (∀ order ∈ orders, order.StaysWith id) → ∃ limited, m.Runs app orders limited) ∧
    ∀ limited, m.Runs app orders limited →
      (∀ tag depth limit, .warn (.dropped tag depth limit) ∉
        limited.world.records.drop m.world.records.length) →
      ∃ free, (m.withoutLimit id).Runs app orders free ∧
        free.world.records = limited.world.records ∧ free.world.calls = limited.world.calls ∧
        free.world.cells = limited.world.cells ∧ free.app = limited.app := by
  constructor
  · intro d limit hd hlimit happ horders
    obtain ⟨limited, hruns, _⟩ := exists_runs happ hd hlimit horders
    exact ⟨limited, hruns⟩
  · intro limited hruns hnone
    have hleads := runs_iff_leads.mp hruns
    have hdrops : limited.world.drops = m.world.drops :=
      World.drops_eq (Moment.Leads.prefix_records hleads) hnone
    exact ⟨limited.withoutLimit id, runs_iff_leads.mpr (hleads.withoutLimit hdrops),
      rfl, rfl, rfl, rfl⟩

/-- An application with one handler, which dispatches its own action while its budget lasts. -/
def Application.budgeted : Application Nat where
  handles customType := customType == "again"
  respond _ budget _ :=
    match budget with
    | 0 => .done 0
    | budget + 1 => .give budget (.dispatch 0 (.custom "again" [])) fun _ budget => .done budget

theorem Machine.limit_transparent_budgeted :
    let m : Machine Nat :=
      { world := { cells := ⟨[.bool false]⟩ }
        dispatchers := [{ states := [("open", 0)], maxDepth := some 3 }]
        app := 1 }
    let orders : List Order :=
      [.dispatch 0 (.sequence [.toggleState "open", .custom "again" [], .log "end"])]
    ∃ free, (m.withoutLimit 0).Runs .budgeted orders free ∧
      free.world.records = [.log "end"] ∧ free.world.calls.length = 2 ∧
      free.world.cells = ⟨[.bool true]⟩ := by
  intro m orders
  have hstays : Application.budgeted.StaysWith 0 := by
    intro w budget customType params
    cases budget with
    | zero => trivial
    | succ budget => exact ⟨rfl, fun _ _ => trivial⟩
  have htransparent := limit_transparent .budgeted m 0 orders
  obtain ⟨limited, hruns⟩ := htransparent.1 _ 3 rfl rfl hstays (by simp [orders, Order.StaysWith])
  have houtcome : ∃ outcome : Machine Nat, m.Runs .budgeted orders outcome ∧
      outcome.world.records = [.log "end"] ∧ outcome.world.calls.length = 2 ∧
      outcome.world.cells = ⟨[.bool true]⟩ := ⟨_, ⟨4, rfl⟩, rfl, rfl, rfl⟩
  obtain ⟨outcome, houtcome, hrecords, hcalls, hcells⟩ := houtcome
  obtain rfl : limited = outcome := hruns.unique houtcome
  obtain ⟨free, hfree, hfreeRecords, hfreeCalls, hfreeCells, _⟩ :=
    htransparent.2 limited hruns (by simp [hrecords, m])
  exact ⟨free, hfree, hfreeRecords.trans hrecords, hfreeCalls ▸ hcalls, hfreeCells.trans hcells⟩

end ScreenDoc
