import ScreenDoc.Proofs.Dispatch.Depths

/-!
# Work elsewhere

What leaves a dispatcher alone goes the same way whatever that dispatcher is. The application sees
no dispatcher, so that neither the registry nor the depth nor the limit of one that nothing is
ordered of can make a difference to a run.
-/

namespace ScreenDoc

variable {σ : Type} {app : Application σ} {m m' : Machine σ} {id : DispatcherId} {d e : Dispatcher}

def Order.Avoids (id : DispatcherId) : Order → Prop
  | .dispatch i _ => i ≠ id
  | .invoke (.script i _) => i ≠ id
  | .invoke (.external _) => True

/-- Nothing is ordered of this dispatcher, whatever comes of the orders. -/
def Reaction.Avoids (id : DispatcherId) : Reaction σ → Prop
  | .done _ => True
  | .give _ order next => order.Avoids id ∧ ∀ w state, (next w state).Avoids id

def Application.Avoids (app : Application σ) (id : DispatcherId) : Prop :=
  ∀ w state call, (app.respond w state call).Avoids id

def Task.Avoids (id : DispatcherId) : Task σ → Prop
  | .carryOut order => order.Avoids id
  | .react next => ∀ w state, (next w state).Avoids id
  | .leave i _ => i ≠ id

theorem World.avoids_enter (happ : app.Avoids id) {i : DispatcherId} {action : Action}
    (h : ∀ actions, action = .sequence actions → i ≠ id) (w : World) (states : Registry) :
    ∀ task ∈ (w.enter app i states action).2, task.Avoids id := by
  cases action with
  | setState key value => simp [enter]
  | toggleState key => simp [enter]
  | log message => simp [enter]
  | sequence actions => simp [enter, Task.Avoids, Order.Avoids, h actions rfl]
  | custom customType params =>
    by_cases hhandles : app.handles customType
    · rw [enter_of_handles hhandles, List.forall_mem_singleton]
      exact fun w state => happ w state _
    · rw [enter_of_not_handles hhandles]
      simp

namespace Machine

def exchange (m : Machine σ) (id : DispatcherId) (e : Dispatcher) : Machine σ :=
  { m with dispatchers := m.dispatchers.set id e }

theorem getElem?_exchange (hd : m.dispatchers[id]? = some d) :
    (m.exchange id e).dispatchers[id]? = some e :=
  List.getElem?_set_self (List.getElem?_eq_some_iff.mp hd).1

theorem exchange_self (hd : m.dispatchers[id]? = some e) : m.exchange id e = m := by
  have hds : m.dispatchers.set id e = m.dispatchers := by
    refine List.ext_getElem? fun i => ?_
    by_cases hi : id = i
    · subst hi
      rw [hd]
      exact getElem?_exchange hd
    · exact List.getElem?_set_ne hi
  exact congrArg (fun ds => { m with dispatchers := ds }) hds

theorem exchange_setDepth (m : Machine σ) (id : DispatcherId) (depth : Nat) (e : Dispatcher) :
    (m.setDepth id depth).exchange id e = m.exchange id e := by
  have hds : (m.setDepth id depth).dispatchers.set id e = m.dispatchers.set id e := by
    refine List.ext_getElem? fun i => ?_
    by_cases hi : id = i
    · subst hi
      simp [setDepth, List.getElem?_set]
    · simp [setDepth, hi]
  exact congrArg (fun ds => { m with dispatchers := ds }) hds

theorem exchange_setDepth_ne (m : Machine σ) {i : DispatcherId} (hi : i ≠ id) (depth : Nat)
    (e : Dispatcher) : (m.setDepth i depth).exchange id e = (m.exchange id e).setDepth i depth := by
  have hds : (m.setDepth i depth).dispatchers.set id e =
      (m.dispatchers.set id e).modify i fun d => { d with depth } := by
    refine List.ext_getElem? fun j => ?_
    by_cases hj : id = j
    · subst hj
      simp [setDepth, List.getElem?_set, hi]
    · simp [setDepth, hj, List.getElem?_modify]
  exact congrArg (fun ds => { m with dispatchers := ds }) hds

theorem Stepped.exchange (e : Dispatcher) {task : Task σ} {done : Moment σ}
    (htask : task.Avoids id) (h : m.Stepped app task done) :
    (m.exchange id e).Stepped app task ⟨done.machine.exchange id e, done.tasks⟩ := by
  have hsame {i : DispatcherId} (hi : i ≠ id) :
      (m.exchange id e).dispatchers[i]? = m.dispatchers[i]? :=
    List.getElem?_set_ne (Ne.symm hi)
  cases h with
  | script => exact .script
  | external => exact .external
  | absent hd => exact .absent ((hsame htask).trans hd)
  | dropped hd hover => exact .dropped ((hsame htask).trans hd) hover
  | @entered i action d hd hover =>
    have hentered : (m.exchange id e).Stepped app (.carryOut (.dispatch i action)) _ :=
      .entered ((hsame htask).trans hd) hover
    rw [← exchange_setDepth_ne m htask] at hentered
    exact hentered
  | done hnext => exact .done hnext
  | give hnext => exact .give hnext
  | leave =>
    rw [exchange_setDepth_ne m htask]
    exact .leave

private theorem Stepped.avoids (happ : app.Avoids id) {task : Task σ} {done : Moment σ}
    (htask : task.Avoids id) (h : m.Stepped app task done) :
    ∀ task ∈ done.tasks, task.Avoids id := by
  cases h with
  | script =>
    rw [List.forall_mem_map]
    exact fun _ _ => htask
  | external =>
    rw [List.forall_mem_singleton]
    exact fun w state => happ w state _
  | absent => simp
  | dropped => simp
  | entered =>
    rw [List.forall_mem_append, List.forall_mem_singleton]
    exact ⟨World.avoids_enter happ (fun _ _ => htask) _ _, htask⟩
  | done => simp
  | give hnext =>
    obtain ⟨horder, hinner⟩ := hnext ▸ htask m.world m.app
    simpa using ⟨horder, hinner⟩
  | leave => simp

end Machine

namespace Moment

variable {c : Moment σ}

def exchange (c : Moment σ) (id : DispatcherId) (e : Dispatcher) : Moment σ :=
  ⟨c.machine.exchange id e, c.tasks⟩

private theorem next?_exchange (e : Dispatcher) (hc : ∀ task ∈ c.tasks, task.Avoids id) :
    (c.exchange id e).next? app = (c.next? app).map (·.exchange id e) := by
  obtain ⟨m, tasks⟩ := c
  cases tasks with
  | nil => rfl
  | cons task rest =>
    have hstep := m.stepped app task
    rw [next?_of_stepped hstep rest]
    exact next?_of_stepped (hstep.exchange e (hc task List.mem_cons_self)) rest

private theorem avoids_next? (happ : app.Avoids id) {c' : Moment σ}
    (hc : ∀ task ∈ c.tasks, task.Avoids id) (hnext : c.next? app = some c') :
    ∀ task ∈ c'.tasks, task.Avoids id := by
  obtain ⟨task, rest, done, htasks, hdone, rfl⟩ := exists_stepped hnext
  rw [htasks, List.forall_mem_cons] at hc
  exact List.forall_mem_append.mpr ⟨hdone.avoids happ hc.1, hc.2⟩

/-- What leaves a dispatcher alone goes the same way if the dispatcher is another. -/
theorem leads_exchange_iff (happ : app.Avoids id) (e : Dispatcher)
    (hc : ∀ task ∈ c.tasks, task.Avoids id) :
    Leads app (c.exchange id e) ⟨m', []⟩ ↔
      ∃ m₁, Leads app c ⟨m₁, []⟩ ∧ m₁.exchange id e = m' := by
  rw [leads_map_iff (P := fun c => ∀ task ∈ c.tasks, task.Avoids id)
    (fun _ => next?_exchange e) (fun _ _ => avoids_next? happ) hc]
  constructor
  · rintro ⟨⟨m₁, tasks⟩, hleads, heq⟩
    obtain ⟨rfl, rfl⟩ := Moment.mk.inj heq
    exact ⟨m₁, hleads, rfl⟩
  · rintro ⟨m₁, hleads, rfl⟩
    exact ⟨⟨m₁, []⟩, hleads, rfl⟩

end Moment

end ScreenDoc
