import Mathlib.Data.Option.Basic
import Mathlib.Logic.Relation
import ScreenDoc.Dispatch.Basic

/-!
# Runs in single steps

A run of orders taken apart. A moment of a run is a machine with the list of what is still to be
done, and one step does the first thing on the list, which may leave more to do. Orders bring one
machine to another exactly if single steps do, so that what a single step preserves holds
throughout a run and in the end.
-/

namespace ScreenDoc

variable {σ : Type}

/-- Something that is still to be done in a run. -/
inductive Task (σ : Type) where
  | carryOut (order : Order)
  /-- The application goes on, in view of what there is by then. -/
  | react (next : World → σ → Reaction σ)
  /-- A dispatch is over, and the depth goes back. -/
  | leave (dispatcher : DispatcherId) (depth : Nat)

structure Moment (σ : Type) where
  machine : Machine σ
  tasks : List (Task σ)

/-- What an action does at once, on a dispatcher that has been entered, and what it leaves to do. -/
def World.enter (app : Application σ) (id : DispatcherId) (states : Registry) (w : World) :
    Action → World × List (Task σ)
  | .setState key value => (w.setState states key value, [])
  | .toggleState key => (w.toggleState states key, [])
  | .log message => (w.record (.log message), [])
  | .sequence actions => (w, actions.map fun action => .carryOut (.dispatch id action))
  | .custom customType params =>
    if app.handles customType then
      (w.note (.custom customType params),
        [.react fun w state => app.respond w state (.custom customType params)])
    else (w.warn (.noHandler customType), [])

theorem World.enter_of_handles {app : Application σ} {customType : String}
    (hhandles : app.handles customType) (id : DispatcherId) (states : Registry) (w : World)
    (params : Json.Map) :
    w.enter app id states (.custom customType params) =
      (w.note (.custom customType params),
        [.react fun w state => app.respond w state (.custom customType params)]) :=
  if_pos hhandles

theorem World.enter_of_not_handles {app : Application σ} {customType : String}
    (hhandles : ¬app.handles customType) (id : DispatcherId) (states : Registry) (w : World)
    (params : Json.Map) :
    w.enter app id states (.custom customType params) = (w.warn (.noHandler customType), []) :=
  if_neg hhandles

namespace Machine

/-- What one step of a task does, and what it leaves to do. -/
def step (app : Application σ) (m : Machine σ) : Task σ → Moment σ
  | .carryOut (.invoke (.script id actions)) =>
    ⟨m, actions.map fun action => .carryOut (.dispatch id action)⟩
  | .carryOut (.invoke (.external id)) =>
    ⟨m.note (.behavior id), [.react fun w state => app.respond w state (.behavior id)]⟩
  | .carryOut (.dispatch id action) =>
    match m.dispatchers[id]? with
    | none => ⟨m, []⟩
    | some d =>
      match d.maxDepth.filter (· < d.depth + 1) with
      | some limit =>
        ⟨{ m with world := m.world.warn (.dropped action.tag (d.depth + 1) limit) }, []⟩
      | none =>
        let entered := m.world.enter app id d.states action
        ⟨{ m.setDepth id (d.depth + 1) with world := entered.1 },
          entered.2 ++ [.leave id d.depth]⟩
  | .react next =>
    match next m.world m.app with
    | .done state => ⟨{ m with app := state }, []⟩
    | .give state order next => ⟨{ m with app := state }, [.carryOut order, .react next]⟩
  | .leave id depth => ⟨m.setDepth id depth, []⟩

/-- The orders, one after another, bring the machine `m` to the machine `m'`. -/
def Runs (app : Application σ) (m : Machine σ) (orders : List Order) (m' : Machine σ) : Prop :=
  ∃ steps, orders.foldlM (perform app steps) m = some m'

end Machine

namespace Moment

/-- The next moment of a run; none if there is nothing left to do. -/
def next? (app : Application σ) (c : Moment σ) : Option (Moment σ) :=
  match c.tasks with
  | [] => none
  | task :: rest =>
    let done := c.machine.step app task
    some ⟨done.machine, done.tasks ++ rest⟩

/-- The moment `c'` is reached from `c`. -/
def Leads (app : Application σ) (c c' : Moment σ) : Prop :=
  Relation.ReflTransGen (fun c c' => c.next? app = some c') c c'

end Moment

/-- Does a task, with orders carried out by `perform`. -/
def Task.perform (perform : Machine σ → Order → Option (Machine σ)) (m : Machine σ) :
    Task σ → Option (Machine σ)
  | .carryOut order => perform m order
  | .react next => m.follow perform (next m.world m.app)
  | .leave id depth => some (m.setDepth id depth)

namespace Machine

variable {app : Application σ} {steps : Nat} {m m' : Machine σ}

/-! ## The steps one by one -/

/-- All that a step of a task can be. -/
inductive Stepped (app : Application σ) (m : Machine σ) : Task σ → Moment σ → Prop where
  | script {id : DispatcherId} {actions : List Action} :
    Stepped app m (.carryOut (.invoke (.script id actions)))
      ⟨m, actions.map fun action => .carryOut (.dispatch id action)⟩
  | external {id : Nat} :
    Stepped app m (.carryOut (.invoke (.external id)))
      ⟨m.note (.behavior id), [.react fun w state => app.respond w state (.behavior id)]⟩
  | absent {id : DispatcherId} {action : Action} (hd : m.dispatchers[id]? = none) :
    Stepped app m (.carryOut (.dispatch id action)) ⟨m, []⟩
  | dropped {id : DispatcherId} {action : Action} {d : Dispatcher} {limit : Nat}
    (hd : m.dispatchers[id]? = some d)
    (hover : d.maxDepth.filter (· < d.depth + 1) = some limit) :
    Stepped app m (.carryOut (.dispatch id action))
      ⟨{ m with world := m.world.warn (.dropped action.tag (d.depth + 1) limit) }, []⟩
  | entered {id : DispatcherId} {action : Action} {d : Dispatcher}
    (hd : m.dispatchers[id]? = some d) (hover : d.maxDepth.filter (· < d.depth + 1) = none) :
    Stepped app m (.carryOut (.dispatch id action))
      ⟨{ m.setDepth id (d.depth + 1) with world := (m.world.enter app id d.states action).1 },
        (m.world.enter app id d.states action).2 ++ [.leave id d.depth]⟩
  | done {next : World → σ → Reaction σ} {state : σ} (hnext : next m.world m.app = .done state) :
    Stepped app m (.react next) ⟨{ m with app := state }, []⟩
  | give {next inner : World → σ → Reaction σ} {state : σ} {order : Order}
    (hnext : next m.world m.app = .give state order inner) :
    Stepped app m (.react next) ⟨{ m with app := state }, [.carryOut order, .react inner]⟩
  | leave {id : DispatcherId} {depth : Nat} :
    Stepped app m (.leave id depth) ⟨m.setDepth id depth, []⟩

theorem Stepped.eq {task : Task σ} {done : Moment σ} (h : m.Stepped app task done) :
    m.step app task = done := by
  cases h with
  | script => rfl
  | external => rfl
  | absent hd => simp only [step, hd]
  | dropped hd hover => simp only [step, hd, hover]
  | entered hd hover => simp only [step, hd, hover]
  | done hnext => simp only [step, hnext]
  | give hnext => simp only [step, hnext]
  | leave => rfl

theorem stepped (app : Application σ) (m : Machine σ) (task : Task σ) :
    m.Stepped app task (m.step app task) := by
  cases task with
  | carryOut order =>
    cases order with
    | invoke behavior =>
      cases behavior with
      | script id actions => exact .script
      | external id => exact .external
    | dispatch id action =>
      cases hd : m.dispatchers[id]? with
      | none => exact (Stepped.absent hd).eq ▸ .absent hd
      | some d =>
        cases hover : d.maxDepth.filter (· < d.depth + 1) with
        | some limit => exact (Stepped.dropped hd hover).eq ▸ .dropped hd hover
        | none => exact (Stepped.entered hd hover).eq ▸ .entered hd hover
  | react next =>
    cases hnext : next m.world m.app with
    | done state => exact (Stepped.done hnext).eq ▸ .done hnext
    | give state order inner => exact (Stepped.give hnext).eq ▸ .give hnext
  | leave id depth => exact .leave

/-! ## A task is its first step and what is left then -/

theorem foldlM_dispatch (app : Application σ) (steps : Nat) (id : DispatcherId)
    (actions : List Action) (m : Machine σ) :
    (actions.map fun action => Task.carryOut (.dispatch id action)).foldlM
        (Task.perform (perform app steps)) m =
      actions.foldlM (fun m action => m.perform app steps (.dispatch id action)) m := by
  rw [List.foldlM_map]
  rfl

/-- Carrying out an order is one step and then all that the step leaves to do. -/
theorem perform_succ (app : Application σ) (steps : Nat) (m : Machine σ) (order : Order) :
    m.perform app (steps + 1) order =
      (m.step app (.carryOut order)).tasks.foldlM (Task.perform (perform app steps))
        (m.step app (.carryOut order)).machine := by
  cases order with
  | invoke behavior =>
    cases behavior with
    | script id actions => exact (foldlM_dispatch app steps id actions m).symm
    | external id => simp [perform, step, call, Task.perform]
  | dispatch id action =>
    rw [perform, step]
    cases m.dispatchers[id]? with
    | none => rfl
    | some d =>
      cases hover : d.maxDepth.filter (· < d.depth + 1) with
      | some limit =>
        simp only [hover]
        rfl
      | none =>
        simp only [hover, List.foldlM_append]
        cases action with
        | setState key value => rfl
        | toggleState key => rfl
        | log message => rfl
        | sequence actions =>
          rw [World.enter, foldlM_dispatch, Option.map_eq_bind]
          rfl
        | custom customType params =>
          by_cases hhandles : app.handles customType
          · rw [World.enter_of_handles hhandles]
            simp [hhandles, call, note, setDepth, Task.perform, Option.map_eq_bind]
          · rw [World.enter_of_not_handles hhandles]
            simp only [hhandles]
            rfl

private theorem perform_react (app : Application σ) (steps : Nat) (m : Machine σ)
    (next : World → σ → Reaction σ) :
    Task.perform (perform app steps) m (.react next) =
      (m.step app (.react next)).tasks.foldlM (Task.perform (perform app steps))
        (m.step app (.react next)).machine := by
  rw [Task.perform, step]
  cases next m.world m.app with
  | done state => rfl
  | give state order next => simp [follow, Task.perform]

/-! ## More nested steps change nothing -/

theorem foldlM_mono {α β : Type} {f g : β → α → Option β}
    (h : ∀ b a b', f b a = some b' → g b a = some b') {l : List α} {b b' : β}
    (hl : l.foldlM f b = some b') : l.foldlM g b = some b' := by
  induction l generalizing b with
  | nil => exact hl
  | cons a l ih =>
    rw [List.foldlM_cons, Option.bind_eq_bind, Option.bind_eq_some_iff] at hl ⊢
    obtain ⟨c, hc, hrest⟩ := hl
    exact ⟨c, h b a c hc, ih hrest⟩

section Mono

variable {f g : Machine σ → Order → Option (Machine σ)}

private theorem follow_mono (h : ∀ m order m', f m order = some m' → g m order = some m')
    {r : Reaction σ} (hr : m.follow f r = some m') : m.follow g r = some m' := by
  induction r generalizing m with
  | done state => exact hr
  | give state order next ih =>
    rw [follow, Option.bind_eq_bind, Option.bind_eq_some_iff] at hr ⊢
    obtain ⟨c, hc, hrest⟩ := hr
    exact ⟨c, h _ _ c hc, ih _ _ hrest⟩

theorem task_mono (h : ∀ m order m', f m order = some m' → g m order = some m')
    {task : Task σ} (ht : task.perform f m = some m') : task.perform g m = some m' := by
  cases task with
  | carryOut order => exact h m order m' ht
  | react next => exact follow_mono h ht
  | leave id depth => exact ht

end Mono

private theorem perform_mono {order : Order} (h : m.perform app steps order = some m') :
    m.perform app (steps + 1) order = some m' := by
  induction steps generalizing m m' order with
  | zero => cases h
  | succ steps ih =>
    rw [perform_succ] at h ⊢
    exact foldlM_mono (fun _ _ _ => task_mono fun _ _ _ => ih) h

theorem task_perform_mono {task : Task σ} (h : task.perform (perform app steps) m = some m') :
    task.perform (perform app (steps + 1)) m = some m' :=
  task_mono (fun _ _ _ => perform_mono) h

private theorem task_of_step {task : Task σ}
    (h : (m.step app task).tasks.foldlM (Task.perform (perform app steps))
      (m.step app task).machine = some m') :
    task.perform (perform app (steps + 1)) m = some m' := by
  cases task with
  | carryOut order => exact (perform_succ app steps m order).trans h
  | react next => exact task_perform_mono ((perform_react app steps m next).trans h)
  | leave id depth => exact h

end Machine

/-! ## Runs are single steps -/

namespace Moment

variable {app : Application σ} {steps : Nat} {m m' : Machine σ} {c c' c'' : Moment σ}

theorem Leads.trans (h : Leads app c c') (h' : Leads app c' c'') : Leads app c c'' :=
  Relation.ReflTransGen.trans h h'

theorem next?_of_stepped {task : Task σ} {done : Moment σ} (h : m.Stepped app task done)
    (rest : List (Task σ)) :
    next? app ⟨m, task :: rest⟩ = some ⟨done.machine, done.tasks ++ rest⟩ := by
  rw [← h.eq]
  rfl

theorem exists_stepped (h : c.next? app = some c') :
    ∃ task rest done, c.tasks = task :: rest ∧ c.machine.Stepped app task done ∧
      c' = ⟨done.machine, done.tasks ++ rest⟩ := by
  obtain ⟨m, tasks⟩ := c
  cases tasks with
  | nil => cases h
  | cons task rest =>
    cases h
    exact ⟨task, rest, m.step app task, rfl, m.stepped app task, rfl⟩

theorem Leads.first {task : Task σ} {done : Moment σ} (hstep : m.Stepped app task done)
    (h : Leads app done c) : Leads app ⟨m, [task]⟩ c := by
  refine Relation.ReflTransGen.head (next?_of_stepped hstep []) ?_
  rwa [List.append_nil]

private theorem next?_append (h : c.next? app = some c') (rest : List (Task σ)) :
    next? app ⟨c.machine, c.tasks ++ rest⟩ = some ⟨c'.machine, c'.tasks ++ rest⟩ := by
  obtain ⟨task, tasks, done, htasks, hdone, rfl⟩ := exists_stepped h
  rw [htasks, List.cons_append, next?_of_stepped hdone, List.append_assoc]

theorem Leads.append (h : Leads app c c') (rest : List (Task σ)) :
    Leads app ⟨c.machine, c.tasks ++ rest⟩ ⟨c'.machine, c'.tasks ++ rest⟩ := by
  induction h with
  | refl => exact .refl
  | tail _ hstep ih => exact ih.tail (next?_append hstep rest)

theorem Leads.seq {tasks rest : List (Task σ)} (h : Leads app ⟨m, tasks⟩ ⟨m', []⟩)
    (hrest : Leads app ⟨m', rest⟩ c) : Leads app ⟨m, tasks ++ rest⟩ c :=
  (h.append rest).trans hrest

theorem leads_of_foldlM {tasks : List (Task σ)}
    (htask : ∀ (m : Machine σ) (task : Task σ) (m' : Machine σ),
      task.perform (Machine.perform app steps) m = some m' → Leads app ⟨m, [task]⟩ ⟨m', []⟩)
    (h : tasks.foldlM (Task.perform (Machine.perform app steps)) m = some m') :
    Leads app ⟨m, tasks⟩ ⟨m', []⟩ := by
  induction tasks generalizing m with
  | nil =>
    cases h
    exact .refl
  | cons task tasks ih =>
    rw [List.foldlM_cons, Option.bind_eq_bind, Option.bind_eq_some_iff] at h
    obtain ⟨m₁, hfirst, hrest⟩ := h
    exact (htask m task m₁ hfirst).seq (ih hrest)

private theorem leads_of_follow {r : Reaction σ} {next : World → σ → Reaction σ}
    (horder : ∀ (m : Machine σ) (order : Order) (m' : Machine σ),
      m.perform app steps order = some m' → Leads app ⟨m, [.carryOut order]⟩ ⟨m', []⟩)
    (hnext : next m.world m.app = r)
    (h : m.follow (Machine.perform app steps) r = some m') :
    Leads app ⟨m, [.react next]⟩ ⟨m', []⟩ := by
  induction r generalizing m next with
  | done state =>
    cases h
    exact .first (.done hnext) .refl
  | give state order inner ih =>
    rw [Machine.follow, Option.bind_eq_bind, Option.bind_eq_some_iff] at h
    obtain ⟨m₁, hfirst, hrest⟩ := h
    exact .first (.give hnext) ((horder _ order m₁ hfirst).seq (ih _ _ rfl hrest))

theorem leads_of_task {task : Task σ}
    (horder : ∀ (m : Machine σ) (order : Order) (m' : Machine σ),
      m.perform app steps order = some m' → Leads app ⟨m, [.carryOut order]⟩ ⟨m', []⟩)
    (h : task.perform (Machine.perform app steps) m = some m') :
    Leads app ⟨m, [task]⟩ ⟨m', []⟩ := by
  cases task with
  | carryOut order => exact horder m order m' h
  | react next => exact leads_of_follow horder rfl h
  | leave id depth =>
    cases h
    exact .first .leave .refl

theorem leads_of_perform {order : Order} (h : m.perform app steps order = some m') :
    Leads app ⟨m, [.carryOut order]⟩ ⟨m', []⟩ := by
  induction steps generalizing m m' order with
  | zero => cases h
  | succ steps ih =>
    rw [Machine.perform_succ] at h
    exact .first (m.stepped app (.carryOut order))
      (leads_of_foldlM (fun _ _ _ => leads_of_task fun _ _ _ => ih) h)

theorem Leads.exists_foldlM (h : Leads app c ⟨m', []⟩) :
    ∃ steps, c.tasks.foldlM (Task.perform (Machine.perform app steps)) c.machine = some m' := by
  -- From the end: the first task needs one nested step more than what its step leaves to do.
  induction h using Relation.ReflTransGen.head_induction_on with
  | refl => exact ⟨0, rfl⟩
  | @head c c₁ hnext _ ih =>
    obtain ⟨steps, hsteps⟩ := ih
    obtain ⟨task, rest, done, htasks, hdone, rfl⟩ := exists_stepped hnext
    rw [List.foldlM_append, Option.bind_eq_bind, Option.bind_eq_some_iff] at hsteps
    obtain ⟨m₁, hfirst, hrest⟩ := hsteps
    have htask : task.perform (Machine.perform app (steps + 1)) c.machine = some m₁ :=
      Machine.task_of_step (hdone.eq ▸ hfirst)
    refine ⟨steps + 1, ?_⟩
    rw [htasks, List.foldlM_cons, htask]
    exact Machine.foldlM_mono (fun _ _ _ => Machine.task_perform_mono) hrest

/-! ## Runs taken apart -/

theorem leads_nil_iff : Leads app ⟨m, []⟩ ⟨m', []⟩ ↔ m = m' := by
  constructor
  · intro h
    cases h.cases_head with
    | inl h => exact congrArg Moment.machine h
    | inr h =>
      obtain ⟨_, hnext, _⟩ := h
      cases hnext
  · rintro rfl
    exact .refl

/-- A run is the first step of its first task and what is left to do then. -/
theorem leads_iff_of_stepped {task : Task σ} {done : Moment σ} (h : m.Stepped app task done)
    (rest : List (Task σ)) :
    Leads app ⟨m, task :: rest⟩ ⟨m', []⟩ ↔
      Leads app ⟨done.machine, done.tasks ++ rest⟩ ⟨m', []⟩ := by
  have hfirst := next?_of_stepped h rest
  constructor
  · intro hleads
    cases hleads.cases_head with
    | inl heq => cases heq
    | inr hstep =>
      obtain ⟨c, hnext, hrest⟩ := hstep
      cases hfirst.symm.trans hnext
      exact hrest
  · exact .head hfirst

theorem leads_append_iff {tasks rest : List (Task σ)} :
    Leads app ⟨m, tasks ++ rest⟩ ⟨m', []⟩ ↔
      ∃ m₁, Leads app ⟨m, tasks⟩ ⟨m₁, []⟩ ∧ Leads app ⟨m₁, rest⟩ ⟨m', []⟩ := by
  constructor
  · intro h
    obtain ⟨steps, hsteps⟩ := h.exists_foldlM
    rw [List.foldlM_append, Option.bind_eq_bind, Option.bind_eq_some_iff] at hsteps
    obtain ⟨m₁, htasks, hrest⟩ := hsteps
    have htask {m m' : Machine σ} {task : Task σ}
        (h : task.perform (Machine.perform app steps) m = some m') :
        Leads app ⟨m, [task]⟩ ⟨m', []⟩ :=
      leads_of_task (fun _ _ _ => leads_of_perform) h
    exact ⟨m₁, leads_of_foldlM (fun _ _ _ => htask) htasks,
      leads_of_foldlM (fun _ _ _ => htask) hrest⟩
  · rintro ⟨m₁, htasks, hrest⟩
    exact htasks.seq hrest

/-- Moments that are changed in a way that every step goes along with go through the same steps. -/
theorem leads_map_iff {f : Moment σ → Moment σ} {P : Moment σ → Prop}
    (hnext : ∀ c, P c → (f c).next? app = (c.next? app).map f)
    (hkeep : ∀ c c', P c → c.next? app = some c' → P c') (hc : P c) :
    Leads app (f c) c' ↔ ∃ c₁, Leads app c c₁ ∧ f c₁ = c' := by
  have hall {c₁ : Moment σ} (h : Leads app c c₁) : P c₁ := by
    induction h with
    | refl => exact hc
    | tail _ hstep ih => exact hkeep _ _ ih hstep
  constructor
  · intro h
    induction h with
    | refl => exact ⟨c, .refl, rfl⟩
    | tail _ hstep ih =>
      obtain ⟨c₁, hleads, rfl⟩ := ih
      rw [hnext c₁ (hall hleads), Option.map_eq_some_iff] at hstep
      obtain ⟨c₂, hstep, rfl⟩ := hstep
      exact ⟨c₂, hleads.tail hstep, rfl⟩
  · rintro ⟨c₁, hleads, rfl⟩
    induction hleads with
    | refl => exact .refl
    | tail hleads hstep ih =>
      refine ih.tail ?_
      rw [hnext _ (hall hleads), hstep]
      rfl

end Moment

/-- Orders bring one machine to another exactly if single steps do. -/
theorem Machine.runs_iff_leads {app : Application σ} {m m' : Machine σ} {orders : List Order} :
    m.Runs app orders m' ↔ Moment.Leads app ⟨m, orders.map .carryOut⟩ ⟨m', []⟩ := by
  have hmap (steps : Nat) : (orders.map Task.carryOut).foldlM (Task.perform (perform app steps)) m =
      orders.foldlM (perform app steps) m := by
    rw [List.foldlM_map]
    rfl
  constructor
  · rintro ⟨steps, hrun⟩
    exact Moment.leads_of_foldlM
      (fun _ _ _ => Moment.leads_of_task fun _ _ _ => Moment.leads_of_perform)
      ((hmap steps).trans hrun)
  · intro h
    obtain ⟨steps, hrun⟩ := h.exists_foldlM
    exact ⟨steps, (hmap steps).symm.trans hrun⟩

theorem Machine.Runs.unique {app : Application σ} {m m₁ m₂ : Machine σ} {orders : List Order}
    (h₁ : m.Runs app orders m₁) (h₂ : m.Runs app orders m₂) : m₁ = m₂ := by
  have hright : Relator.RightUnique fun c c' : Moment σ => c.next? app = some c' :=
    fun _ _ _ h h' => Option.some.inj (h.symm.trans h')
  cases Relation.ReflTransGen.total_of_right_unique hright (runs_iff_leads.mp h₁)
      (runs_iff_leads.mp h₂) with
  | inl h => exact Moment.leads_nil_iff.mp h
  | inr h => exact (Moment.leads_nil_iff.mp h).symm

end ScreenDoc
