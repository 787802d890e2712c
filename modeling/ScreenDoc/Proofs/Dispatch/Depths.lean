import ScreenDoc.Proofs.Dispatch.DepthLimit

/-!
# Depths come and go

A run changes nothing about a dispatcher but its depth, and when all that was begun is over every
depth is what it was before. On a dispatcher without a limit the depth makes no difference: a run
goes through the same moments one level deeper. So an action there has the effect of what it does at
once and of what it leaves to do, both at the depth at which it was found.
-/

namespace ScreenDoc

variable {σ : Type} {app : Application σ} {m m' : Machine σ} {id : DispatcherId} {d : Dispatcher}

/-! ## Only depths change -/

namespace Machine

def settings (m : Machine σ) : List Dispatcher :=
  m.dispatchers.map fun d => { d with depth := 0 }

def states? (m : Machine σ) (id : DispatcherId) : Option Registry :=
  (m.dispatchers[id]?).map Dispatcher.states

@[simp] theorem settings_setDepth (m : Machine σ) (id : DispatcherId) (depth : Nat) :
    (m.setDepth id depth).settings = m.settings := by
  refine List.ext_getElem? fun i => ?_
  by_cases hi : id = i
  · subst hi
    simp [settings, setDepth, Function.comp_def]
  · simp [settings, setDepth, hi]

theorem Stepped.settings {task : Task σ} {done : Moment σ} (h : m.Stepped app task done) :
    done.machine.settings = m.settings := by
  cases h with
  | script => rfl
  | external => rfl
  | absent => rfl
  | dropped => rfl
  | entered => exact settings_setDepth m _ _
  | done => rfl
  | give => rfl
  | leave => exact settings_setDepth m _ _

private theorem exists_depth_of_settings (h : m'.settings = m.settings)
    (hd : m.dispatchers[id]? = some d) :
    ∃ depth, m'.dispatchers[id]? = some { d with depth } := by
  have hsame : (m'.dispatchers[id]?).map (fun d => { d with depth := 0 }) =
      some { d with depth := 0 } := by
    rw [← List.getElem?_map, ← Machine.settings, h, Machine.settings, List.getElem?_map, hd]
    rfl
  obtain ⟨e, he, heq⟩ := Option.map_eq_some_iff.mp hsame
  obtain ⟨hstates, hlimit⟩ : e.states = d.states ∧ e.maxDepth = d.maxDepth := by
    simpa using heq
  exact ⟨e.depth, by rw [he, ← hstates, ← hlimit]⟩

theorem states?_eq_of_settings (h : m'.settings = m.settings) (id : DispatcherId) :
    m'.states? id = m.states? id := by
  have hmap (m : Machine σ) : m.states? id = (m.settings[id]?).map Dispatcher.states := by
    simp [states?, settings, Function.comp_def]
  rw [hmap, hmap, h]

end Machine

theorem Moment.Leads.settings {c c' : Moment σ} (h : Leads app c c') :
    c'.machine.settings = c.machine.settings := by
  induction h with
  | refl => rfl
  | tail _ hnext ih =>
    obtain ⟨task, rest, done, _, hdone, rfl⟩ := exists_stepped hnext
    exact hdone.settings.trans ih

/-! ## Depths go back -/

/-- The dispatchers after a task, as far as it sets back a depth. -/
def Task.unwind (ds : List Dispatcher) : Task σ → List Dispatcher
  | .leave id depth => ds.modify id fun d => { d with depth }
  | _ => ds

/-- The dispatchers when all that is under way has gone back. -/
def Moment.unwound (c : Moment σ) : List Dispatcher :=
  c.tasks.foldl Task.unwind c.machine.dispatchers

theorem Task.foldl_unwind {tasks : List (Task σ)} (h : ∀ id depth, .leave id depth ∉ tasks)
    (ds : List Dispatcher) : tasks.foldl Task.unwind ds = ds := by
  induction tasks with
  | nil => rfl
  | cons task tasks ih =>
    have htask : Task.unwind ds task = ds := by
      cases task with
      | leave id depth => exact absurd List.mem_cons_self (h id depth)
      | carryOut order => rfl
      | react next => rfl
    rw [List.foldl_cons, htask]
    exact ih fun id depth hmem => h id depth (List.mem_cons_of_mem task hmem)

theorem Machine.Stepped.unwound {task : Task σ} {done : Moment σ} (h : m.Stepped app task done) :
    done.unwound = task.unwind m.dispatchers := by
  cases h with
  | script => exact Task.foldl_unwind (by simp) m.dispatchers
  | external => rfl
  | absent => rfl
  | dropped => rfl
  | entered hd hover =>
    rw [Moment.unwound, List.foldl_append,
      Task.foldl_unwind fun _ _ => World.leave_notMem_enter]
    exact Machine.setDepth_back hd rfl
  | done => rfl
  | give => rfl
  | leave => rfl

theorem Moment.Leads.unwound {c c' : Moment σ} (h : Leads app c c') : c'.unwound = c.unwound := by
  induction h with
  | refl => rfl
  | @tail c₁ c₂ _ hnext ih =>
    obtain ⟨task, rest, done, htasks, hdone, rfl⟩ := exists_stepped hnext
    calc Moment.unwound ⟨done.machine, done.tasks ++ rest⟩
      _ = rest.foldl Task.unwind done.unwound := List.foldl_append
      _ = rest.foldl Task.unwind (task.unwind c₁.machine.dispatchers) := by rw [hdone.unwound]
      _ = c₁.unwound := by rw [Moment.unwound, htasks, List.foldl_cons]
      _ = c.unwound := ih

theorem Moment.Leads.dispatchers_eq {c : Moment σ} (hc : ∀ id depth, .leave id depth ∉ c.tasks)
    (h : Leads app c ⟨m', []⟩) : m'.dispatchers = c.machine.dispatchers :=
  h.unwound.trans (Task.foldl_unwind hc c.machine.dispatchers)

theorem Machine.Runs.dispatchers_eq {orders : List Order} (h : m.Runs app orders m') :
    m'.dispatchers = m.dispatchers :=
  Moment.Leads.dispatchers_eq (by simp) (runs_iff_leads.mp h)

/-! ## Without a limit the depth makes no difference -/

def Machine.Unlimited (m : Machine σ) (id : DispatcherId) : Prop :=
  ∀ d, m.dispatchers[id]? = some d → d.maxDepth = none

private theorem Machine.Unlimited.of_settings (h : m.Unlimited id)
    (hsettings : m'.settings = m.settings) : m'.Unlimited id := by
  intro e he
  obtain ⟨depth, hd⟩ := exists_depth_of_settings hsettings.symm he
  exact h { e with depth } hd

def Machine.deepen (m : Machine σ) (id : DispatcherId) : Machine σ :=
  { m with dispatchers := m.dispatchers.modify id fun d => { d with depth := d.depth + 1 } }

def Task.deepen (id : DispatcherId) : Task σ → Task σ
  | .leave i depth => .leave i (if i = id then depth + 1 else depth)
  | task => task

def Moment.deepen (c : Moment σ) (id : DispatcherId) : Moment σ :=
  ⟨c.machine.deepen id, c.tasks.map (Task.deepen id)⟩

theorem Task.map_deepen {tasks : List (Task σ)} (h : ∀ id depth, .leave id depth ∉ tasks)
    (id : DispatcherId) : tasks.map (Task.deepen id) = tasks := by
  have hsame : ∀ task ∈ tasks, task.deepen id = task := by
    intro task htask
    cases task with
    | leave i depth => exact absurd htask (h i depth)
    | carryOut order => rfl
    | react next => rfl
  exact (List.map_congr_left hsame).trans (List.map_id tasks)

namespace Machine

private theorem setDepth_succ (hd : m.dispatchers[id]? = some d) :
    m.setDepth id (d.depth + 1) = m.deepen id := by
  have hds : (m.setDepth id (d.depth + 1)).dispatchers = (m.deepen id).dispatchers := by
    refine List.ext_getElem? fun i => ?_
    by_cases hi : id = i
    · subst hi
      simp [setDepth, deepen, hd]
    · simp [setDepth, deepen, hi]
  exact congrArg (fun ds => { m with dispatchers := ds }) hds

theorem setDepth_self (hd : m.dispatchers[id]? = some d) : m.setDepth id d.depth = m := by
  have hds : (m.setDepth id d.depth).dispatchers = m.dispatchers := by
    refine List.ext_getElem? fun i => ?_
    by_cases hi : id = i
    · subst hi
      simp [setDepth, hd]
    · simp [setDepth, hi]
  exact congrArg (fun ds => { m with dispatchers := ds }) hds

private theorem setDepth_deepen (m : Machine σ) (id : DispatcherId) (depth : Nat) :
    (m.deepen id).setDepth id depth = m.setDepth id depth := by
  simp [setDepth, deepen, List.modify_modify_eq, Function.comp_def]

theorem deepen_setDepth (m : Machine σ) (id i : DispatcherId) (depth : Nat) :
    (m.setDepth i depth).deepen id =
      (m.deepen id).setDepth i (if i = id then depth + 1 else depth) := by
  by_cases hi : i = id
  · simp [setDepth, deepen, hi, List.modify_modify_eq, Function.comp_def]
  · simp [setDepth, deepen, hi, List.modify_modify_ne _ _ _ hi]

/-- Every step is the same step one level deeper, as the dispatcher has no limit to strike. -/
theorem Stepped.deepen {task : Task σ} {done : Moment σ} (hfree : m.Unlimited id)
    (h : m.Stepped app task done) :
    (m.deepen id).Stepped app (task.deepen id) (done.deepen id) := by
  cases h with
  | @script i actions =>
    rw [Moment.deepen, Task.map_deepen (by simp)]
    exact .script
  | external => exact .external
  | absent hd => exact .absent (by simpa [Machine.deepen] using hd)
  | @dropped i action d limit hd hover =>
    have hi : id ≠ i := by
      rintro rfl
      simp [hfree d hd] at hover
    exact .dropped (by simpa [Machine.deepen, hi] using hd) hover
  | @entered i action d hd hover =>
    let deeper : Dispatcher := { d with depth := if i = id then d.depth + 1 else d.depth }
    have hdeeper : (m.deepen id).dispatchers[i]? = some deeper := by
      by_cases hi : id = i
      · simp [Machine.deepen, deeper, hi, hd]
      · simp [Machine.deepen, deeper, hi, Ne.symm hi, hd]
    have hroom : deeper.maxDepth.filter (· < deeper.depth + 1) = none := by
      by_cases hi : i = id
      · subst hi
        simp [deeper, hfree d hd]
      · simpa [deeper, hi] using hover
    have hdepth : (if i = id then d.depth + 1 + 1 else d.depth + 1) = deeper.depth + 1 := by
      simp only [deeper]
      split <;> rfl
    have hmachine : (m.setDepth i (d.depth + 1)).deepen id =
        (m.deepen id).setDepth i (deeper.depth + 1) := by
      rw [deepen_setDepth, hdepth]
    let entered := m.world.enter app i d.states action
    have htasks : (entered.2 ++ [Task.leave i d.depth]).map (Task.deepen id) =
        entered.2 ++ [.leave i deeper.depth] := by
      rw [List.map_append, Task.map_deepen fun _ _ => World.leave_notMem_enter]
      rfl
    have hdone : Moment.deepen ⟨{ m.setDepth i (d.depth + 1) with world := entered.1 },
          entered.2 ++ [.leave i d.depth]⟩ id =
        ⟨{ (m.deepen id).setDepth i (deeper.depth + 1) with world := entered.1 },
          entered.2 ++ [.leave i deeper.depth]⟩ := by
      rw [Moment.deepen, htasks, ← hmachine]
      rfl
    exact hdone ▸ .entered hdeeper hroom
  | done hnext => exact .done hnext
  | give hnext => exact .give hnext
  | leave =>
    rw [Moment.deepen, deepen_setDepth]
    exact .leave

end Machine

namespace Moment

variable {c : Moment σ}

private theorem next?_deepen (hfree : c.machine.Unlimited id) :
    (c.deepen id).next? app = (c.next? app).map (Moment.deepen · id) := by
  obtain ⟨m, tasks⟩ := c
  cases tasks with
  | nil => rfl
  | cons task rest =>
    have hstep := m.stepped app task
    have hdeeper := next?_of_stepped (hstep.deepen hfree) (rest.map (Task.deepen id))
    rw [next?_of_stepped hstep rest]
    refine hdeeper.trans ?_
    simp [Moment.deepen]

/-- One level deeper a run goes through the same moments, and through no others. -/
theorem leads_deepen_iff (hfree : c.machine.Unlimited id) {c' : Moment σ} :
    Leads app (c.deepen id) c' ↔ ∃ c₁, Leads app c c₁ ∧ c₁.deepen id = c' :=
  leads_map_iff (P := fun c => c.machine.Unlimited id) (fun _ => next?_deepen)
    (fun _ _ hfree hnext => hfree.of_settings (Leads.settings (.single hnext))) hfree

private theorem leads_deepen_nil_iff (hfree : c.machine.Unlimited id) :
    Leads app (c.deepen id) ⟨m', []⟩ ↔ ∃ m₁, Leads app c ⟨m₁, []⟩ ∧ m₁.deepen id = m' := by
  rw [leads_deepen_iff hfree]
  constructor
  · rintro ⟨⟨m₁, tasks⟩, hleads, heq⟩
    obtain ⟨hmachine, htasks⟩ := Moment.mk.inj heq
    obtain rfl := List.map_eq_nil_iff.mp htasks
    exact ⟨m₁, hleads, hmachine⟩
  · rintro ⟨m₁, hleads, rfl⟩
    exact ⟨⟨m₁, []⟩, hleads, rfl⟩

/-- On a dispatcher without a limit, an action is what it does at once and then what it leaves to
do, at the same depth. -/
theorem leads_dispatch_iff (hd : m.dispatchers[id]? = some d) (hfree : d.maxDepth = none)
    {action : Action} :
    Leads app ⟨m, [.carryOut (.dispatch id action)]⟩ ⟨m', []⟩ ↔
      Leads app ⟨{ m with world := (m.world.enter app id d.states action).1 },
        (m.world.enter app id d.states action).2⟩ ⟨m', []⟩ := by
  let entered := m.world.enter app id d.states action
  let inner : Moment σ := ⟨{ m with world := entered.1 }, entered.2⟩
  have hnoLeave : ∀ i depth, .leave i depth ∉ inner.tasks := fun _ _ => World.leave_notMem_enter
  have hunlimited : inner.machine.Unlimited id := fun e he => by
    cases hd.symm.trans he
    exact hfree
  have hdeepen : inner.deepen id =
      ⟨{ m.setDepth id (d.depth + 1) with world := entered.1 }, entered.2⟩ := by
    rw [Moment.deepen, Task.map_deepen hnoLeave, Machine.setDepth_succ hd]
    rfl
  -- What is left to do sets its own depths back, so that going back undoes the one level more.
  have hback {m₁ : Machine σ} (h : Leads app inner ⟨m₁, []⟩) :
      (m₁.deepen id).setDepth id d.depth = m₁ := by
    have hds : m₁.dispatchers = m.dispatchers := h.dispatchers_eq hnoLeave
    rw [Machine.setDepth_deepen]
    exact Machine.setDepth_self (hds ▸ hd)
  calc Leads app ⟨m, [.carryOut (.dispatch id action)]⟩ ⟨m', []⟩
    _ ↔ Leads app ⟨{ m.setDepth id (d.depth + 1) with world := entered.1 },
          entered.2 ++ [.leave id d.depth]⟩ ⟨m', []⟩ := by
      rw [leads_iff_of_stepped (.entered hd (by simp [hfree])), List.append_nil]
    _ ↔ ∃ m₁, Leads app (inner.deepen id) ⟨m₁, []⟩ ∧ m₁.setDepth id d.depth = m' := by
      rw [leads_append_iff, hdeepen]
      refine exists_congr fun m₁ => and_congr_right fun _ => ?_
      rw [leads_iff_of_stepped .leave, List.append_nil, leads_nil_iff]
    _ ↔ Leads app inner ⟨m', []⟩ := by
      simp only [leads_deepen_nil_iff hunlimited]
      constructor
      · rintro ⟨_, ⟨m₁, hleads, rfl⟩, rfl⟩
        rwa [hback hleads]
      · intro hleads
        exact ⟨m'.deepen id, ⟨m', hleads, rfl⟩, hback hleads⟩

end Moment

end ScreenDoc
