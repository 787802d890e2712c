import ScreenDoc.Proofs.Dispatch.Elsewhere
import ScreenDoc.Proofs.Dispatch.Returning

/-!
# What a limit means

A limit on depth cuts an action tree off below a level. Dispatching the tree on a dispatcher with
the limit comes to the same as carrying it out without one after every subtree on the first level
past the limit has been replaced by a warning, as long as no handler calls the dispatcher again.
-/

namespace ScreenDoc

variable {σ : Type} {app : Application σ} {m m' : Machine σ} {id : DispatcherId} {d e : Dispatcher}
  {limit level : Nat}

/-! ## Trees cut off at a level -/

/-- An action tree in which some subtrees have been replaced by warnings. -/
inductive Pruned where
  | kept (action : Action)
  | dropped (warning : Warning)
  | sequence (parts : List Pruned)

namespace Action

mutual

/-- The tree of an action on this level, with a warning in place of every subtree on the first level
past the limit. -/
def prune (limit level : Nat) (action : Action) : Pruned :=
  if level = limit + 1 then .dropped (.dropped action.tag level limit)
  else
    match action with
    | .sequence actions => .sequence (pruneEach limit (level + 1) actions)
    | action => .kept action

def pruneEach (limit level : Nat) : List Action → List Pruned
  | [] => []
  | action :: actions => prune limit level action :: pruneEach limit level actions

end

private theorem prune_past (limit : Nat) (action : Action) :
    action.prune limit (limit + 1) = .dropped (.dropped action.tag (limit + 1) limit) := by
  cases action <;> exact if_pos rfl

theorem prune_sequence (hlevel : level ≤ limit) (actions : List Action) :
    (sequence actions).prune limit level = .sequence (pruneEach limit (level + 1) actions) := by
  exact if_neg (by omega)

theorem prune_leaf (hlevel : level ≤ limit) {action : Action}
    (hleaf : ∀ actions, action ≠ .sequence actions) : action.prune limit level = .kept action := by
  cases action with
  | sequence actions => exact absurd rfl (hleaf actions)
  | _ => exact if_neg (by omega)

private theorem nesting_pos (action : Action) : 0 < action.nesting := by
  cases action <;> simp [nesting]

private theorem nesting_le_nestingList {action : Action} {actions : List Action}
    (h : action ∈ actions) : action.nesting ≤ nestingList actions := by
  induction actions with
  | nil => cases h
  | cons first actions ih =>
    rw [nestingList]
    cases h with
    | head => exact Nat.le_max_left _ _
    | tail _ h => exact Nat.le_trans (ih h) (Nat.le_max_right _ _)

end Action

namespace Machine

mutual

/-- Carries out a pruned tree on a dispatcher: gives its warnings, and dispatches all else. -/
def Executes (app : Application σ) (id : DispatcherId) (m : Machine σ) :
    Pruned → Machine σ → Prop
  | .kept action, m' => m.Runs app [.dispatch id action] m'
  | .dropped warning, m' => m' = { m with world := m.world.warn warning }
  | .sequence parts, m' => ExecutesEach app id m parts m'

def ExecutesEach (app : Application σ) (id : DispatcherId) (m : Machine σ) :
    List Pruned → Machine σ → Prop
  | [], m' => m' = m
  | part :: parts, m' =>
    ∃ m₁, Executes app id m part m₁ ∧ ExecutesEach app id m₁ parts m'

end

mutual

theorem dispatchers_of_executes {m m' : Machine σ} :
    ∀ {part : Pruned}, m.Executes app id part m' → m'.dispatchers = m.dispatchers
  | .kept _, h => Runs.dispatchers_eq h
  | .dropped _, h => (congrArg dispatchers h :)
  | .sequence _, h => dispatchers_of_executesEach h

theorem dispatchers_of_executesEach {m m' : Machine σ} :
    ∀ {parts : List Pruned}, m.ExecutesEach app id parts m' → m'.dispatchers = m.dispatchers
  | [], h => congrArg dispatchers h
  | _ :: _, ⟨_, hpart, hparts⟩ =>
    (dispatchers_of_executesEach hparts).trans (dispatchers_of_executes hpart)

end

/-! ## As if the dispatcher were another -/

/-- One machine comes from another in this way when the dispatcher is exchanged in both. -/
def AsIf (id : DispatcherId) (e : Dispatcher) (r : Machine σ → Machine σ → Prop)
    (m m' : Machine σ) : Prop :=
  m'.dispatchers = m.dispatchers ∧ r (m.exchange id e) (m'.exchange id e)

theorem eq_of_exchange (hds : m'.dispatchers = m.dispatchers)
    (h : m'.exchange id e = m.exchange id e) : m' = m := by
  obtain ⟨w, ds, app⟩ := m
  obtain ⟨w', ds', app'⟩ := m'
  obtain rfl : ds' = ds := hds
  obtain ⟨rfl, -, rfl⟩ := Machine.mk.inj h
  rfl

theorem exists_exchange {n : Machine σ} (h : n.dispatchers = (m.exchange id e).dispatchers) :
    ∃ m₁ : Machine σ, m₁.dispatchers = m.dispatchers ∧ m₁.exchange id e = n :=
  ⟨{ n with dispatchers := m.dispatchers }, rfl,
    congrArg (fun ds => { n with dispatchers := ds }) h.symm⟩

theorem asIf_world_iff (f : World → World) :
    AsIf id e (fun n n' => n' = { n with world := f n.world }) m m' ↔
      m' = { m with world := f m.world } := by
  constructor
  · rintro ⟨hds, h⟩
    exact eq_of_exchange (m := { m with world := f m.world }) hds h
  · rintro rfl
    exact ⟨rfl, rfl⟩

theorem asIf_comp_iff {r s : Machine σ → Machine σ → Prop}
    (hr : ∀ n n', r n n' → n'.dispatchers = n.dispatchers) :
    AsIf id e (fun n n' => ∃ n₁, r n n₁ ∧ s n₁ n') m m' ↔
      ∃ m₁, AsIf id e r m m₁ ∧ AsIf id e s m₁ m' := by
  constructor
  · rintro ⟨hds, n₁, hfirst, hrest⟩
    obtain ⟨m₁, hm₁, rfl⟩ := exists_exchange (hr _ _ hfirst)
    exact ⟨m₁, ⟨hm₁, hfirst⟩, hds.trans hm₁.symm, hrest⟩
  · rintro ⟨m₁, ⟨hm₁, hfirst⟩, hm', hrest⟩
    exact ⟨hm'.trans hm₁, m₁.exchange id e, hfirst, hrest⟩

theorem asIf_self_iff (hd : m.dispatchers[id]? = some e) {r : Machine σ → Machine σ → Prop}
    (hr : ∀ n n', r n n' → n'.dispatchers = n.dispatchers) : AsIf id e r m m' ↔ r m m' := by
  rw [AsIf, exchange_self hd]
  constructor
  · rintro ⟨hds, h⟩
    rwa [exchange_self (hds ▸ hd)] at h
  · intro h
    have hds := hr _ _ h
    exact ⟨hds, by rwa [exchange_self (hds ▸ hd)]⟩

private theorem exists_asIf_iff {r : Machine σ → Machine σ → Prop}
    (hr : ∀ n n', r n n' → n'.dispatchers = n.dispatchers) {w : World} {state : σ} :
    (∃ m', AsIf id e r m m' ∧ m'.world = w ∧ m'.app = state) ↔
      ∃ n, r (m.exchange id e) n ∧ n.world = w ∧ n.app = state := by
  constructor
  · rintro ⟨m', ⟨-, h⟩, hw, hstate⟩
    exact ⟨m'.exchange id e, h, hw, hstate⟩
  · rintro ⟨n, h, hw, hstate⟩
    obtain ⟨m', hds, rfl⟩ := exists_exchange (hr _ _ h)
    exact ⟨m', ⟨hds, h⟩, hw, hstate⟩

end Machine

namespace Moment

open Machine (AsIf)

/-- An action that is let in has come to an end when what it leaves to do has, and that may be seen
as if the dispatcher were another. -/
theorem leads_entered_iff {action : Action} (hd : m.dispatchers[id]? = some d)
    (hroom : d.maxDepth.filter (· < d.depth + 1) = none) {r : Machine σ → Machine σ → Prop}
    (h : ∀ m₁, Leads app ⟨{ m.setDepth id (d.depth + 1) with
        world := (m.world.enter app id d.states action).1 },
        (m.world.enter app id d.states action).2⟩ ⟨m₁, []⟩ ↔
      AsIf id e r (m.setDepth id (d.depth + 1)) m₁) :
    Leads app ⟨m, [.carryOut (.dispatch id action)]⟩ ⟨m', []⟩ ↔ AsIf id e r m m' := by
  have hleave {m₁ : Machine σ} : Leads app ⟨m₁, [.leave id d.depth]⟩ ⟨m', []⟩ ↔
      m₁.setDepth id d.depth = m' := by
    rw [leads_iff_of_stepped .leave, List.append_nil, leads_nil_iff]
  rw [leads_iff_of_stepped (.entered hd hroom), List.append_nil, leads_append_iff]
  simp only [hleave, h]
  constructor
  · rintro ⟨m₁, ⟨hds, hr⟩, rfl⟩
    refine ⟨Machine.setDepth_back hd hds, ?_⟩
    rwa [Machine.exchange_setDepth] at hr ⊢
  · rintro ⟨hds, hr⟩
    refine ⟨m'.setDepth id (d.depth + 1), ⟨?_, ?_⟩, ?_⟩
    · rw [Machine.setDepth, hds, Machine.setDepth]
    · rwa [Machine.exchange_setDepth, Machine.exchange_setDepth]
    · have hback : (m'.setDepth id (d.depth + 1)).setDepth id d.depth = m'.setDepth id d.depth := by
        simp [Machine.setDepth, List.modify_modify_eq, Function.comp_def]
      rw [hback]
      exact Machine.setDepth_self (hds ▸ hd)

/-- What leaves a dispatcher alone has the same outcome as if the dispatcher were another. -/
theorem leads_iff_asIf (happ : app.Avoids id) (e : Dispatcher) {tasks : List (Task σ)}
    (htasks : ∀ task ∈ tasks, task.Avoids id) (hleave : ∀ i depth, .leave i depth ∉ tasks) :
    Leads app ⟨m, tasks⟩ ⟨m', []⟩ ↔
      AsIf id e (fun n n' => Leads app ⟨n, tasks⟩ ⟨n', []⟩) m m' := by
  have hexchange : Leads app ⟨m.exchange id e, tasks⟩ ⟨m'.exchange id e, []⟩ ↔
      ∃ m₁, Leads app ⟨m, tasks⟩ ⟨m₁, []⟩ ∧ m₁.exchange id e = m'.exchange id e :=
    leads_exchange_iff (c := ⟨m, tasks⟩) happ e htasks
  constructor
  · intro h
    exact ⟨h.dispatchers_eq hleave, hexchange.mpr ⟨m', h, rfl⟩⟩
  · rintro ⟨hds, h⟩
    obtain ⟨m₁, hleads, hm₁⟩ := hexchange.mp h
    have hds₁ : m₁.dispatchers = m.dispatchers := hleads.dispatchers_eq hleave
    rwa [← Machine.eq_of_exchange (hds₁.trans hds.symm) hm₁]

theorem leads_pruneEach_iff {ds : List Dispatcher} {actions : List Action}
    (h : ∀ action ∈ actions, ∀ {m m' : Machine σ}, m.dispatchers = ds →
      (Leads app ⟨m, [.carryOut (.dispatch id action)]⟩ ⟨m', []⟩ ↔
        AsIf id e (fun n n' => n.Executes app id (action.prune limit level) n') m m'))
    (hm : m.dispatchers = ds) :
    Leads app ⟨m, actions.map fun action => .carryOut (.dispatch id action)⟩ ⟨m', []⟩ ↔
      AsIf id e (fun n n' => n.ExecutesEach app id (Action.pruneEach limit level actions) n')
        m m' := by
  induction actions generalizing m with
  | nil => exact leads_nil_iff.trans (eq_comm.trans (Machine.asIf_world_iff fun w => w).symm)
  | cons action actions ih =>
    rw [List.forall_mem_cons] at h
    rw [List.map_cons, ← List.singleton_append, leads_append_iff]
    refine Iff.trans (exists_congr fun m₁ => ?_)
      (Machine.asIf_comp_iff fun _ _ => Machine.dispatchers_of_executes).symm
    rw [h.1 hm]
    exact and_congr_right fun hfirst => ih h.2 (hfirst.1.trans hm)

theorem leads_full_iff_asIf {action : Action} (hd : m.dispatchers[id]? = some d)
    (hlimit : d.maxDepth = some limit) (hfull : d.depth = limit) :
    Leads app ⟨m, [.carryOut (.dispatch id action)]⟩ ⟨m', []⟩ ↔
      AsIf id e (fun n n' => n.Executes app id (action.prune limit (d.depth + 1)) n') m m' := by
  subst hfull
  rw [leads_iff_of_stepped (.full hd hlimit (Nat.le_refl _)), List.append_nil, leads_nil_iff,
    Action.prune_past]
  exact eq_comm.trans (Machine.asIf_world_iff (World.warn · _)).symm

section Prune

variable (happ : app.Avoids id) (hfree : e.maxDepth = none)

include happ hfree

private theorem leads_leaf_iff_asIf {action : Action}
    (hleaf : ∀ actions, action ≠ .sequence actions)
    (hd : m.dispatchers[id]? = some d) (hstates : e.states = d.states)
    (hroom : d.maxDepth.filter (· < d.depth + 1) = none) :
    Leads app ⟨m, [.carryOut (.dispatch id action)]⟩ ⟨m', []⟩ ↔
      AsIf id e (fun n n' => n.Runs app [.dispatch id action] n') m m' := by
  refine leads_entered_iff hd hroom fun m₁ => ?_
  let entered := m.world.enter app id d.states action
  let inner : Machine σ := { m.setDepth id (d.depth + 1) with world := entered.1 }
  have htasks : ∀ task ∈ entered.2, task.Avoids id :=
    World.avoids_enter happ (fun actions h => absurd h (hleaf actions)) _ _
  have hexchanged : ((m.setDepth id (d.depth + 1)).exchange id e).dispatchers[id]? = some e := by
    rw [Machine.exchange_setDepth]
    exact Machine.getElem?_exchange hd
  have hruns : ((m.setDepth id (d.depth + 1)).exchange id e).Runs app [.dispatch id action]
      (m₁.exchange id e) ↔
        Leads app ⟨inner.exchange id e, entered.2⟩ ⟨m₁.exchange id e, []⟩ := by
    rw [Machine.runs_iff_leads, List.map_singleton, leads_dispatch_iff hexchanged hfree, hstates]
    rfl
  refine (leads_iff_asIf (m := inner) happ e htasks fun _ _ => World.leave_notMem_enter).trans ?_
  exact and_congr_right fun _ => hruns.symm

private theorem leads_prune_iff (hstates : e.states = d.states) (action : Action)
    (hd : m.dispatchers[id]? = some d) (hlimit : d.maxDepth = some limit)
    (hdepth : d.depth ≤ limit) :
    Leads app ⟨m, [.carryOut (.dispatch id action)]⟩ ⟨m', []⟩ ↔
      AsIf id e (fun n n' => n.Executes app id (action.prune limit (d.depth + 1)) n') m m' := by
  induction action using Action.induction generalizing m m' d with
  | leaf action hleaf =>
    rcases Nat.lt_or_eq_of_le hdepth with hroom | hfull
    · simp only [Action.prune_leaf hroom hleaf, Machine.Executes]
      exact leads_leaf_iff_asIf happ hfree hleaf hd hstates (d.filter_eq_none_of_lt hlimit hroom)
    · exact leads_full_iff_asIf hd hlimit hfull
  | sequence actions ih =>
    rcases Nat.lt_or_eq_of_le hdepth with hroom | hfull
    · simp only [Action.prune_sequence hroom, Machine.Executes]
      refine leads_entered_iff hd (d.filter_eq_none_of_lt hlimit hroom) fun m₁ => ?_
      have hdeeper : (m.setDepth id (d.depth + 1)).dispatchers[id]? =
          some { d with depth := d.depth + 1 } := by
        simp [Machine.setDepth, hd]
      refine leads_pruneEach_iff (fun action hmem n n' hn => ?_) rfl
      exact ih action hmem (d := { d with depth := d.depth + 1 }) hstates (hn ▸ hdeeper) hlimit
        hroom
    · exact leads_full_iff_asIf hd hlimit hfull

end Prune

private theorem leads_fitting_iff_asIf (hd : m.dispatchers[id]? = some e)
    (hfree : e.maxDepth = none) {action : Action} (hfits : level + action.nesting ≤ limit + 1) :
    Leads app ⟨m, [.carryOut (.dispatch id action)]⟩ ⟨m', []⟩ ↔
      AsIf id e (fun n n' => n.Executes app id (action.prune limit level) n') m m' := by
  induction action using Action.induction generalizing m m' level with
  | leaf action hleaf =>
    have hpos := action.nesting_pos
    simp only [Action.prune_leaf (show level ≤ limit by omega) hleaf, Machine.Executes]
    rw [Machine.asIf_self_iff hd fun _ _ => Machine.Runs.dispatchers_eq, Machine.runs_iff_leads,
      List.map_singleton]
  | sequence actions ih =>
    rw [Action.nesting] at hfits
    simp only [Action.prune_sequence (show level ≤ limit by omega), Machine.Executes]
    rw [leads_dispatch_iff hd hfree]
    refine leads_pruneEach_iff (fun action hmem n n' hn => ih action hmem (hn ▸ hd) ?_) rfl
    have hnesting := Action.nesting_le_nestingList hmem
    omega

theorem leads_sequence_iff_asIf (hd : m.dispatchers[id]? = some d)
    (hroom : d.maxDepth.filter (· < d.depth + 1) = none) (actions : List Action) :
    Leads app ⟨m, [.carryOut (.dispatch id (.sequence actions))]⟩ ⟨m', []⟩ ↔
      AsIf id { d with depth := d.depth + 1 } (fun n n' => Leads app
        ⟨n, actions.map fun action => .carryOut (.dispatch id action)⟩ ⟨n', []⟩) m m' := by
  have hdeeper : (m.setDepth id (d.depth + 1)).dispatchers[id]? =
      some { d with depth := d.depth + 1 } := by
    simp [Machine.setDepth, hd]
  refine leads_entered_iff hd hroom fun m₁ => ?_
  rw [Machine.asIf_self_iff hdeeper fun _ _ h => h.dispatchers_eq (by simp)]
  rfl

/-- Whatever is dropped in a sequence, what comes after it is carried out as if it came alone. -/
theorem leads_sequence_append_iff (hd : m.dispatchers[id]? = some d)
    (hroom : d.maxDepth.filter (· < d.depth + 1) = none) (before after : List Action) :
    Leads app ⟨m, [.carryOut (.dispatch id (.sequence (before ++ after)))]⟩ ⟨m', []⟩ ↔
      ∃ m₁, Leads app ⟨m, [.carryOut (.dispatch id (.sequence before))]⟩ ⟨m₁, []⟩ ∧
        Leads app ⟨m₁, [.carryOut (.dispatch id (.sequence after))]⟩ ⟨m', []⟩ := by
  rw [leads_sequence_iff_asIf hd hroom]
  simp only [List.map_append, leads_append_iff]
  rw [Machine.asIf_comp_iff fun _ _ h => h.dispatchers_eq (by simp)]
  refine exists_congr fun m₁ => ?_
  rw [leads_sequence_iff_asIf hd hroom before]
  exact and_congr_right fun hfirst => (leads_sequence_iff_asIf (hfirst.1 ▸ hd) hroom after).symm

end Moment

namespace Machine

theorem withoutLimit_eq_exchange (hd : m.dispatchers[id]? = some d) :
    m.withoutLimit id = m.exchange id { d with maxDepth := none } := by
  have hds : (m.dispatchers.modify id fun d => { d with maxDepth := none }) =
      m.dispatchers.set id { d with maxDepth := none } := by
    refine List.ext_getElem? fun i => ?_
    by_cases hi : id = i
    · subst hi
      rw [List.getElem?_modify_eq, hd]
      exact (getElem?_exchange hd).symm
    · rw [List.getElem?_modify_ne _ _ hi, List.getElem?_set_ne hi]
  exact congrArg (fun ds => { m with dispatchers := ds }) hds

theorem runs_dispatch_iff_leads {action : Action} :
    m.Runs app [.dispatch id action] m' ↔
      Moment.Leads app ⟨m, [.carryOut (.dispatch id action)]⟩ ⟨m', []⟩ :=
  runs_iff_leads

/-- On a dispatcher at rest, an action ends as its pruned tree does without the limit. -/
theorem outcome_iff_executes_prune (hd : m.dispatchers[id]? = some d)
    (hlimit : d.maxDepth = some limit) (hdepth : d.depth = 0) (happ : app.Avoids id)
    (action : Action) (w : World) (state : σ) :
    (∃ limited, m.Runs app [.dispatch id action] limited ∧ limited.world = w ∧
      limited.app = state) ↔
    ∃ free, (m.withoutLimit id).Executes app id (action.prune limit 1) free ∧ free.world = w ∧
      free.app = state := by
  let e : Dispatcher := { d with maxDepth := none }
  have hprune (m' : Machine σ) :
      Moment.Leads app ⟨m, [.carryOut (.dispatch id action)]⟩ ⟨m', []⟩ ↔
        AsIf id e (fun n n' => n.Executes app id (action.prune limit 1) n') m m' := by
    have hlevel : action.prune limit 1 = action.prune limit (d.depth + 1) := by
      rw [hdepth]
    rw [hlevel]
    exact Moment.leads_prune_iff (d := d) (e := e) happ rfl rfl action hd hlimit
      (hdepth ▸ limit.zero_le)
  simp only [runs_dispatch_iff_leads, hprune]
  rw [withoutLimit_eq_exchange hd]
  exact exists_asIf_iff fun _ _ => dispatchers_of_executes

private theorem runs_withoutLimit_iff_executes_prune (hd : m.dispatchers[id]? = some d)
    {action : Action} (hfits : action.nesting ≤ limit) :
    (m.withoutLimit id).Runs app [.dispatch id action] m' ↔
      (m.withoutLimit id).Executes app id (action.prune limit 1) m' := by
  have hfree : (m.withoutLimit id).dispatchers[id]? = some { d with maxDepth := none } := by
    rw [withoutLimit_eq_exchange hd]
    exact getElem?_exchange hd
  rw [runs_dispatch_iff_leads]
  exact (Moment.leads_fitting_iff_asIf hfree rfl (by omega)).trans
    (asIf_self_iff hfree fun _ _ => dispatchers_of_executes)

/-- The meaning of a limit on depth, for a dispatcher at rest that no handler calls. Dispatching an
action tree has the outcomes, in cells, records, calls and state of the application, that the tree
has without the limit once every subtree on the first level past the limit has been replaced by the
warning that it was dropped. What comes after something that is dropped is carried out as if it came
alone, a tree that nests no deeper than the limit is carried out in full, and there is an outcome if
the handlers that are called come to an end. -/
theorem limit_prunes (hd : m.dispatchers[id]? = some d) (hlimit : d.maxDepth = some limit)
    (hdepth : d.depth = 0) (happ : app.Avoids id) (action : Action) :
    (∀ (w : World) (state : σ),
      (∃ limited, m.Runs app [.dispatch id action] limited ∧ limited.world = w ∧
        limited.app = state) ↔
      ∃ free, (m.withoutLimit id).Executes app id (action.prune limit 1) free ∧ free.world = w ∧
        free.app = state) ∧
    (0 < limit → ∀ (before after : List Action) (m' : Machine σ),
      m.Runs app [.dispatch id (.sequence (before ++ after))] m' ↔
      ∃ m₁, m.Runs app [.dispatch id (.sequence before)] m₁ ∧
        m₁.Runs app [.dispatch id (.sequence after)] m') ∧
    (action.nesting ≤ limit → ∀ (w : World) (state : σ),
      (∃ limited, m.Runs app [.dispatch id action] limited ∧ limited.world = w ∧
        limited.app = state) ↔
      ∃ free, (m.withoutLimit id).Runs app [.dispatch id action] free ∧ free.world = w ∧
        free.app = state) ∧
    (action.Returns app → ∃ limited, m.Runs app [.dispatch id action] limited) := by
  have hpruned := outcome_iff_executes_prune hd hlimit hdepth happ action
  refine ⟨hpruned, fun hpos before after m' => ?_, fun hfits w state => ?_, fun hreturns => ?_⟩
  · simp only [runs_dispatch_iff_leads]
    exact Moment.leads_sequence_append_iff hd (d.filter_eq_none_of_lt hlimit (hdepth ▸ hpos)) _ _
  · rw [hpruned]
    simp only [runs_withoutLimit_iff_executes_prune hd hfits]
  · have hsettles : Moment.Settles app ⟨m, [.carryOut (.dispatch id action)]⟩ :=
      Moment.settles_action hreturns m
    obtain ⟨limited, hleads, -⟩ := hsettles
    exact ⟨limited, runs_dispatch_iff_leads.mpr hleads⟩

end Machine

/-- An application with one handler, which counts its calls and orders nothing. -/
def Application.counting : Application Nat where
  handles customType := customType == "note"
  respond _ calls _ := .done (calls + 1)

theorem Machine.limit_prunes_counting :
    let m : Machine Nat :=
      { world := { cells := ⟨[.bool false]⟩ }
        dispatchers := [{ states := [("open", 0)], maxDepth := some 2 }]
        app := 0 }
    let deep : Action := .sequence [.toggleState "open", .custom "note" [], .sequence []]
    let action : Action := .sequence [.log "before", deep, .custom "note" [], .toggleState "open"]
    let flat : Action := .sequence [.custom "note" [], .sequence []]
    (∃ limited free, m.Runs .counting [.dispatch 0 action] limited ∧
      (m.withoutLimit 0).Executes .counting 0 (action.prune 2 1) free ∧
      free.world = limited.world ∧ free.app = 1 ∧
      limited.world.records = [.log "before", .warn (.dropped "ToggleState" 3 2),
        .warn (.dropped "Custom" 3 2), .warn (.dropped "Sequence" 3 2)] ∧
      limited.world.calls.length = 1 ∧ limited.world.cells = ⟨[.bool true]⟩) ∧
    (∃ m₁ limited, m.Runs .counting [.dispatch 0 (.sequence [.log "before", deep])] m₁ ∧
      m₁.Runs .counting
        [.dispatch 0 (.sequence [.custom "note" [], .toggleState "open"])] limited) ∧
    ∃ limited free, m.Runs .counting [.dispatch 0 flat] limited ∧
      (m.withoutLimit 0).Runs .counting [.dispatch 0 flat] free ∧ free.world = limited.world := by
  intro m deep action flat
  have havoids : Application.counting.Avoids 0 := fun _ _ _ => trivial
  have hreturns (action : Action) : action.Returns .counting := fun _ _ _ _ _ => ⟨_, 0, rfl⟩
  obtain ⟨hpruned, happend, -, hends⟩ := limit_prunes (m := m) rfl rfl rfl havoids action
  obtain ⟨-, -, hfull, hendsFlat⟩ := limit_prunes (m := m) rfl rfl rfl havoids flat
  obtain ⟨limited, hlimited⟩ := hends (hreturns action)
  obtain ⟨limitedFlat, hflat⟩ := hendsFlat (hreturns flat)
  have houtcome : ∃ outcome : Machine Nat, m.Runs .counting [.dispatch 0 action] outcome ∧
      outcome.app = 1 ∧ outcome.world.records = [.log "before",
        .warn (.dropped "ToggleState" 3 2), .warn (.dropped "Custom" 3 2),
        .warn (.dropped "Sequence" 3 2)] ∧
      outcome.world.calls.length = 1 ∧ outcome.world.cells = ⟨[.bool true]⟩ :=
    ⟨_, ⟨4, rfl⟩, rfl, rfl, rfl, rfl⟩
  obtain ⟨outcome, houtcome, happ, hworld⟩ := houtcome
  obtain rfl : limited = outcome := hlimited.unique houtcome
  refine ⟨?_, ?_, ?_⟩
  · obtain ⟨free, hfree, hsame, hstate⟩ :=
      (hpruned limited.world limited.app).mp ⟨limited, hlimited, rfl, rfl⟩
    exact ⟨limited, free, hlimited, hfree, hsame, hstate.trans happ, hworld⟩
  · obtain ⟨m₁, hbefore, hafter⟩ :=
      (happend (by decide) [.log "before", deep] _ limited).mp hlimited
    exact ⟨m₁, limited, hbefore, hafter⟩
  · obtain ⟨free, hfree, hsame, -⟩ :=
      (hfull (by decide) limitedFlat.world limitedFlat.app).mp ⟨limitedFlat, hflat, rfl, rfl⟩
    exact ⟨limitedFlat, free, hflat, hfree, hsame⟩

end ScreenDoc
