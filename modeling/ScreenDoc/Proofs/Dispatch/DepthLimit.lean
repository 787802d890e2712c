import ScreenDoc.Proofs.Dispatch.Steps

/-!
# The limit on depth

A dispatcher with a limit nests no deeper, whatever the application orders in answer to its calls.
Orders that stay with one such dispatcher come to an end. Neither the actions nor the application
get smaller when a handler calls the dispatcher again, but the room below the limit does, and
between two such calls there are only finite lists to work off.
-/

namespace ScreenDoc

variable {σ : Type} {app : Application σ} {m m' : Machine σ} {id : DispatcherId} {d : Dispatcher}
  {limit : Nat}

theorem World.leave_notMem_enter {w : World} {states : Registry} {action : Action}
    {i : DispatcherId} {depth : Nat} : .leave i depth ∉ (w.enter app id states action).2 := by
  cases action with
  | setState key value => simp [enter]
  | toggleState key => simp [enter]
  | log message => simp [enter]
  | sequence actions => simp [enter]
  | custom customType params =>
    rw [enter]
    split <;> simp

theorem Dispatcher.filter_eq_none_of_lt (d : Dispatcher) (hlimit : d.maxDepth = some limit)
    (hroom : d.depth < limit) : d.maxDepth.filter (· < d.depth + 1) = none := by
  simp [hlimit, Option.filter, Nat.not_lt.mpr hroom]

namespace Machine

/-- An action that is met at the limit is dropped. -/
theorem Stepped.full {action : Action} (hd : m.dispatchers[id]? = some d)
    (hlimit : d.maxDepth = some limit) (hfull : limit ≤ d.depth) :
    m.Stepped app (.carryOut (.dispatch id action))
      ⟨{ m with world := m.world.warn (.dropped action.tag (d.depth + 1) limit) }, []⟩ :=
  .dropped hd (by simp [hlimit, Option.filter, Nat.lt_succ_of_le hfull])

/-- An action that is met below the limit is carried out one level deeper. -/
theorem Stepped.room {action : Action} (hd : m.dispatchers[id]? = some d)
    (hlimit : d.maxDepth = some limit) (hroom : d.depth < limit) :
    m.Stepped app (.carryOut (.dispatch id action))
      ⟨{ m.setDepth id (d.depth + 1) with world := (m.world.enter app id d.states action).1 },
        (m.world.enter app id d.states action).2 ++ [.leave id d.depth]⟩ :=
  .entered hd (d.filter_eq_none_of_lt hlimit hroom)

/-! ## No deeper than the limit -/

def Within (m : Machine σ) (id : DispatcherId) (d : Dispatcher) (limit : Nat) : Prop :=
  ∃ depth ≤ limit, m.dispatchers[id]? = some { d with depth }

theorem Within.setDepth (h : m.Within id d limit) {i : DispatcherId} {depth : Nat}
    (hdepth : i = id → depth ≤ limit) : (m.setDepth i depth).Within id d limit := by
  obtain ⟨old, hold, hd⟩ := h
  by_cases hi : i = id
  · refine ⟨depth, hdepth hi, ?_⟩
    simp [Machine.setDepth, hi, hd]
  · refine ⟨old, hold, ?_⟩
    simp [Machine.setDepth, hi, hd]

theorem setDepth_back {depth : Nat} (hd : m.dispatchers[id]? = some d)
    (h : m'.dispatchers = (m.setDepth id depth).dispatchers) :
    (m'.setDepth id d.depth).dispatchers = m.dispatchers := by
  rw [setDepth, h, setDepth, List.modify_modify_eq]
  refine List.ext_getElem? fun i => ?_
  by_cases hi : id = i
  · subst hi
    simp [hd]
  · simp [hi]

end Machine

namespace Moment

/-- The depth is within the limit, now and wherever a dispatch that is under way goes back to. -/
structure Bounded (id : DispatcherId) (d : Dispatcher) (limit : Nat) (c : Moment σ) : Prop where
  now : c.machine.Within id d limit
  back : ∀ depth, .leave id depth ∈ c.tasks → depth ≤ limit

private theorem Bounded.of_stepped {task : Task σ} {done : Moment σ}
    (hlimit : d.maxDepth = some limit)
    (hm : m.Within id d limit) (htask : ∀ depth, task = .leave id depth → depth ≤ limit)
    (hdone : m.Stepped app task done) : done.Bounded id d limit := by
  cases hdone with
  | script => exact ⟨hm, by simp⟩
  | external => exact ⟨hm, by simp⟩
  | absent => exact ⟨hm, by simp⟩
  | dropped => exact ⟨hm, by simp⟩
  | @entered i action e hi hover =>
    -- The limit of this dispatcher did not keep the action out, so there is room.
    have hroom : i = id → e.depth + 1 ≤ limit := by
      rintro rfl
      obtain ⟨depth, _, hd⟩ := hm
      cases hi.symm.trans hd
      simpa [hlimit, Option.filter] using hover
    refine ⟨hm.setDepth hroom, fun depth hleave => ?_⟩
    cases List.mem_append.mp hleave with
    | inl h => exact absurd h World.leave_notMem_enter
    | inr h =>
      cases List.mem_singleton.mp h
      exact Nat.le_of_succ_le (hroom rfl)
  | done => exact ⟨hm, by simp⟩
  | give => exact ⟨hm, by simp⟩
  | @leave i depth => exact ⟨hm.setDepth fun hi => htask depth (hi ▸ rfl), by simp⟩

theorem Bounded.next {c c' : Moment σ} (hlimit : d.maxDepth = some limit)
    (h : c.Bounded id d limit) (hnext : c.next? app = some c') : c'.Bounded id d limit := by
  obtain ⟨task, rest, done, htasks, hdone, rfl⟩ := exists_stepped hnext
  have hback : ∀ depth, .leave id depth ∈ task :: rest → depth ≤ limit := htasks ▸ h.back
  have hfirst : done.Bounded id d limit :=
    .of_stepped hlimit h.now (fun depth htask => hback depth (htask ▸ List.mem_cons_self)) hdone
  refine ⟨hfirst.now, fun depth hleave => ?_⟩
  cases List.mem_append.mp hleave with
  | inl hmem => exact hfirst.back depth hmem
  | inr hmem => exact hback depth (List.mem_cons_of_mem task hmem)

theorem Bounded.leads {c c' : Moment σ} (hlimit : d.maxDepth = some limit)
    (h : c.Bounded id d limit) (hleads : Leads app c c') : c'.Bounded id d limit := by
  induction hleads with
  | refl => exact h
  | tail _ hstep ih => exact ih.next hlimit hstep

end Moment

/-! ## Orders that stay with a dispatcher -/

/-- The order is for this dispatcher alone. -/
def Order.StaysWith (id : DispatcherId) : Order → Prop
  | .dispatch i _ => i = id
  | .invoke (.script i _) => i = id
  | .invoke (.external _) => False

/-- All that the application orders is for this dispatcher, whatever comes of it. -/
def Reaction.StaysWith (id : DispatcherId) : Reaction σ → Prop
  | .done _ => True
  | .give _ order next => order.StaysWith id ∧ ∀ w state, (next w state).StaysWith id

/-- Custom actions make the application call this dispatcher again, and no other. -/
def Application.StaysWith (app : Application σ) (id : DispatcherId) : Prop :=
  ∀ w state customType params, (app.respond w state (.custom customType params)).StaysWith id

namespace Moment

/-- The tasks come to an end, with the dispatchers as they are now. -/
def Settles (app : Application σ) (c : Moment σ) : Prop :=
  ∃ m', Leads app c ⟨m', []⟩ ∧ m'.dispatchers = c.machine.dispatchers

theorem Settles.nil : Settles app ⟨m, []⟩ :=
  ⟨m, .refl, rfl⟩

theorem Settles.seq {tasks rest : List (Task σ)} (h : Settles app ⟨m, tasks⟩)
    (hrest : ∀ m' : Machine σ, m'.dispatchers = m.dispatchers → Settles app ⟨m', rest⟩) :
    Settles app ⟨m, tasks ++ rest⟩ := by
  obtain ⟨m₁, hleads₁, hm₁⟩ := h
  obtain ⟨m₂, hleads₂, hm₂⟩ := hrest m₁ hm₁
  exact ⟨m₂, hleads₁.seq hleads₂, hm₂.trans hm₁⟩

variable {ds : List Dispatcher}

theorem settles_tasks {tasks : List (Task σ)}
    (htasks : ∀ task ∈ tasks, ∀ m : Machine σ, m.dispatchers = ds → Settles app ⟨m, [task]⟩)
    (hm : m.dispatchers = ds) : Settles app ⟨m, tasks⟩ := by
  induction tasks generalizing m with
  | nil => exact .nil
  | cons task tasks ih =>
    rw [List.forall_mem_cons] at htasks
    exact (htasks.1 m hm).seq fun m' hm' => ih htasks.2 (hm'.trans hm)

/-- What this dispatcher is asked for settles while the dispatchers are these. -/
def DispatchesSettle (app : Application σ) (id : DispatcherId) (ds : List Dispatcher) : Prop :=
  ∀ m : Machine σ, m.dispatchers = ds →
    ∀ action, Settles app ⟨m, [.carryOut (.dispatch id action)]⟩

theorem DispatchesSettle.script (h : DispatchesSettle app id ds) (hm : m.dispatchers = ds)
    (actions : List Action) :
    Settles app ⟨m, actions.map fun action => .carryOut (.dispatch id action)⟩ :=
  settles_tasks (by simpa using fun action _ m hm => h m hm action) hm

theorem DispatchesSettle.order (h : DispatchesSettle app id ds) (hm : m.dispatchers = ds)
    {order : Order} (horder : order.StaysWith id) : Settles app ⟨m, [.carryOut order]⟩ := by
  cases order with
  | dispatch i action =>
    obtain rfl : i = id := horder
    exact h m hm action
  | invoke behavior =>
    cases behavior with
    | external i => exact horder.elim
    | script i actions =>
      obtain rfl : i = id := horder
      obtain ⟨m', hleads, hm'⟩ := h.script hm actions
      exact ⟨m', .first .script hleads, hm'⟩

theorem DispatchesSettle.react (h : DispatchesSettle app id ds) (hm : m.dispatchers = ds)
    {next : World → σ → Reaction σ} (hnext : (next m.world m.app).StaysWith id) :
    Settles app ⟨m, [.react next]⟩ := by
  induction hr : next m.world m.app generalizing m next with
  | done state => exact ⟨{ m with app := state }, .first (.done hr) .refl, rfl⟩
  | give state order inner ih =>
    rw [hr] at hnext
    have hgiven : Settles app ⟨{ m with app := state }, [.carryOut order] ++ [.react inner]⟩ :=
      (h.order (m := { m with app := state }) hm hnext.1).seq fun m' hm' =>
        ih _ _ (hm'.trans hm) (hnext.2 _ _) rfl
    obtain ⟨m', hleads, hm'⟩ := hgiven
    exact ⟨m', .first (.give hr) hleads, hm'⟩

theorem DispatchesSettle.enter (h : DispatchesSettle app id ds) (happ : app.StaysWith id)
    (hm : m.dispatchers = ds) (w : World) (states : Registry) (action : Action) :
    Settles app ⟨{ m with world := (w.enter app id states action).1 },
      (w.enter app id states action).2⟩ := by
  cases action with
  | setState key value => exact .nil
  | toggleState key => exact .nil
  | log message => exact .nil
  | sequence actions => exact h.script (m := { m with world := w }) hm actions
  | custom customType params =>
    by_cases hhandles : app.handles customType
    · rw [World.enter_of_handles hhandles]
      exact h.react (m := { m with world := w.note (.custom customType params) }) hm
        (happ _ _ customType params)
    · rw [World.enter_of_not_handles hhandles]
      exact .nil

private theorem settles_dispatch (happ : app.StaysWith id) (hd : m.dispatchers[id]? = some d)
    (hlimit : d.maxDepth = some limit)
    (hinner : d.depth < limit → DispatchesSettle app id (m.setDepth id (d.depth + 1)).dispatchers)
    (action : Action) : Settles app ⟨m, [.carryOut (.dispatch id action)]⟩ := by
  by_cases hroom : d.depth < limit
  · obtain ⟨m', hleads, hm'⟩ :=
      (hinner hroom).enter (m := m.setDepth id (d.depth + 1)) happ rfl m.world d.states action
    exact ⟨m'.setDepth id d.depth,
      .first (.room hd hlimit hroom) (hleads.seq (.first .leave .refl)),
      Machine.setDepth_back hd hm'⟩
  · exact ⟨{ m with world := m.world.warn (.dropped action.tag (d.depth + 1) limit) },
      .first (.full hd hlimit (Nat.le_of_not_lt hroom)) .refl, rfl⟩

private theorem dispatchesSettle (happ : app.StaysWith id) (hd : ds[id]? = some d)
    (hlimit : d.maxDepth = some limit) : DispatchesSettle app id ds := by
  -- On the room below the limit, which is all that gets smaller from a dispatch to one inside it.
  induction hroom : limit - d.depth using Nat.strongRecOn generalizing d ds with
  | _ room ih =>
    rintro m rfl action
    refine settles_dispatch happ hd hlimit (fun hlt => ?_) action
    have hdeeper : (m.setDepth id (d.depth + 1)).dispatchers[id]? =
        some { d with depth := d.depth + 1 } := by
      simp [Machine.setDepth, hd]
    exact ih (limit - (d.depth + 1)) (by omega) hdeeper hlimit rfl

end Moment

theorem Machine.exists_runs {orders : List Order} (happ : app.StaysWith id)
    (hd : m.dispatchers[id]? = some d) (hlimit : d.maxDepth = some limit)
    (horders : ∀ order ∈ orders, order.StaysWith id) :
    ∃ m', m.Runs app orders m' ∧ m'.dispatchers = m.dispatchers := by
  have hsettle := Moment.dispatchesSettle happ hd hlimit
  have htasks : Moment.Settles app ⟨m, orders.map .carryOut⟩ :=
    Moment.settles_tasks (by simpa using fun order h m hm => hsettle.order hm (horders order h)) rfl
  obtain ⟨m', hleads, hm'⟩ := htasks
  exact ⟨m', runs_iff_leads.mpr hleads, hm'⟩

/-! ## A handler that dispatches its own action again -/

/-- The handler of a custom type invokes a script of nothing but the custom action that it handles;
what it keeps for itself may change before and after. -/
def Application.Reenters (app : Application σ) (id : DispatcherId) (customType : String)
    (params : Json.Map) : Prop :=
  app.handles customType ∧ ∃ before after : World → σ → σ, ∀ w state,
    app.respond w state (.custom customType params) =
      .give (before w state) (.invoke (.script id [.custom customType params]))
        fun w state => .done (after w state)

private theorem Moment.leads_of_reenters {customType : String} {params : Json.Map}
    (happ : app.Reenters id customType params) {room : Nat}
    (hd : m.dispatchers[id]? = some d) (hlimit : d.maxDepth = some limit)
    (hroom : d.depth + room = limit) :
    ∃ m', Leads app ⟨m, [.carryOut (.dispatch id (.custom customType params))]⟩ ⟨m', []⟩ ∧
      m'.dispatchers = m.dispatchers ∧
      m'.world = { m.world with
        records := m.world.records ++ [.warn (.dropped "Custom" (limit + 1) limit)]
        calls := m.world.calls ++
          List.replicate room ⟨.custom customType params, m.world.records.length⟩ } := by
  induction room generalizing m d with
  | zero =>
    have hfull : limit ≤ d.depth := by omega
    obtain rfl : d.depth = limit := hroom
    refine ⟨{ m with world := m.world.warn (.dropped "Custom" (d.depth + 1) d.depth) },
      .first (.full hd hlimit hfull) .refl, rfl, ?_⟩
    simp [World.warn, World.record]
  | succ room ih =>
    obtain ⟨hhandles, before, after, hrespond⟩ := happ
    -- One level deeper the handler is called, and from there the script dispatches the same action.
    let called : Machine σ :=
      { m.setDepth id (d.depth + 1) with world := m.world.note (.custom customType params) }
    let going : Machine σ := { called with app := before called.world called.app }
    have hdeeper : going.dispatchers[id]? = some { d with depth := d.depth + 1 } := by
      simp [going, called, Machine.setDepth, hd]
    obtain ⟨back, hinner, hds, hworld⟩ := ih hdeeper hlimit (by simp; omega)
    let returned : Machine σ := { back with app := after back.world back.app }
    have hinvoke : Leads app
        ⟨going, [.carryOut (.invoke (.script id [.custom customType params]))]⟩ ⟨back, []⟩ :=
      .first .script hinner
    have hreact : Leads app ⟨called, [.react fun w state =>
        app.respond w state (.custom customType params)]⟩ ⟨returned, []⟩ :=
      .first (.give (hrespond called.world called.app)) (hinvoke.seq (.first (.done rfl) .refl))
    refine ⟨returned.setDepth id d.depth, .first (.room hd hlimit (by omega)) ?_,
      Machine.setDepth_back hd hds, ?_⟩
    · rw [World.enter_of_handles hhandles]
      exact hreact.seq (.first .leave .refl)
    · refine hworld.trans ?_
      simp [going, called, World.note, List.replicate_succ]

/-- Orders that stay with a dispatcher with a limit come to an end and leave every depth as it was.
Up to then the dispatcher changes in nothing but its depth, which stays within the limit, and an
action that it meets at the limit brings about one warning and nothing else. A script that a handler
keeps invoking is run once for each level of room, and then warned about once. -/
theorem Machine.depth_guarded {orders : List Order} (happ : app.StaysWith id)
    (hd : m.dispatchers[id]? = some d) (hlimit : d.maxDepth = some limit)
    (hdepth : d.depth ≤ limit) (horders : ∀ order ∈ orders, order.StaysWith id) :
    (∃ m', m.Runs app orders m' ∧ m'.dispatchers = m.dispatchers) ∧
    (∀ c, Moment.Leads app ⟨m, orders.map .carryOut⟩ c →
      c.machine.Within id d limit ∧
      ∀ action rest, c.tasks = .carryOut (.dispatch id action) :: rest →
        c.machine.dispatchers[id]? = some { d with depth := limit } →
        c.next? app = some ⟨{ c.machine with
          world := c.machine.world.warn (.dropped action.tag (limit + 1) limit) }, rest⟩) ∧
    ∀ customType params, app.Reenters id customType params →
      ∃ m', m.Runs app [.invoke (.script id [.custom customType params])] m' ∧
        m'.world.calls = m.world.calls ++ List.replicate (limit - d.depth)
          ⟨.custom customType params, m.world.records.length⟩ ∧
        m'.world.records = m.world.records ++ [.warn (.dropped "Custom" (limit + 1) limit)] := by
  refine ⟨exists_runs happ hd hlimit horders, fun c hleads => ⟨?_, ?_⟩, ?_⟩
  · have hstart : Moment.Bounded id d limit ⟨m, orders.map (Task.carryOut (σ := σ))⟩ :=
      ⟨⟨d.depth, hdepth, hd⟩, by simp⟩
    exact (hstart.leads hlimit hleads).now
  · intro action rest htasks hfull
    obtain ⟨m, tasks⟩ := c
    obtain rfl : tasks = _ := htasks
    exact Moment.next?_of_stepped (.full hfull hlimit (Nat.le_refl limit)) rest
  · intro customType params hreenters
    obtain ⟨m', hleads, _, hworld⟩ :=
      Moment.leads_of_reenters hreenters hd hlimit (Nat.add_sub_cancel' hdepth)
    refine ⟨m', runs_iff_leads.mpr (.first .script hleads), ?_, ?_⟩
    · rw [hworld]
    · rw [hworld]

/-- An application with one handler, which keeps invoking a script that calls it. -/
def Application.reentrant : Application Nat where
  handles customType := customType == "reenter"
  respond _ calls _ :=
    .give (calls + 1) (.invoke (.script 0 [.custom "reenter" []])) fun _ calls => .done calls

theorem Machine.depth_guarded_reentrant :
    let m : Machine Nat := { dispatchers := [{ states := [], maxDepth := some 3 }], app := 0 }
    let orders : List Order := [.invoke (.script 0 [.custom "reenter" []])]
    ∃ m', m.Runs .reentrant orders m' ∧ m'.dispatchers = m.dispatchers ∧
      m'.world.calls.length = 3 ∧ m'.world.records = [.warn (.dropped "Custom" 4 3)] := by
  intro m orders
  have hstays : Application.reentrant.StaysWith 0 := fun _ _ _ _ => ⟨rfl, fun _ _ => trivial⟩
  have hreenters : Application.reentrant.Reenters 0 "reenter" [] :=
    ⟨rfl, fun _ calls => calls + 1, fun _ calls => calls, fun _ _ => rfl⟩
  have horders : ∀ order ∈ orders, order.StaysWith 0 := by simp [orders, Order.StaysWith]
  obtain ⟨⟨m₁, hruns₁, hds⟩, _, hcount⟩ :=
    depth_guarded (m := m) hstays rfl rfl (Nat.zero_le 3) horders
  obtain ⟨m₂, hruns₂, hcalls, hrecords⟩ := hcount "reenter" [] hreenters
  obtain rfl : m₁ = m₂ := hruns₁.unique hruns₂
  exact ⟨m₁, hruns₁, hds, by simp [hcalls, m], hrecords⟩

end ScreenDoc
