import ScreenDoc.Proofs.Editor.Frame

/-!
# What a session looks at

The selected id and the collapsed ids of a session are ids of its tree, as long as nothing else is
selected or collapsed. When the tree changes, exactly those ids are forgotten that no node has any
more; an edit at an id forgets none of the ids outside the tree below it.
-/

namespace ScreenDoc

open Node (rootId)

def EditorCommand.viewedId? : EditorCommand → Option String
  | .select id => id
  | .toggleCollapsed id => some id
  | _ => none

def EditorCommand.editedId? : EditorCommand → Option String
  | .addAsSibling parentId _ => some parentId
  | .addAsChild parentId _ => some parentId
  | .update id _ => some id
  | _ => none

theorem Node.Edited.exists_update {root tree : Node} {command : EditorCommand}
    (h : root.Edited command tree) :
    ∃ id r, command.editedId? = some id ∧ root.update id r = .applied tree := by
  cases h with
  | update htree => exact ⟨_, _, rfl, htree⟩
  | addAsSibling hparent hadd htree => exact ⟨_, _, rfl, htree⟩
  | addAsChild hparent hadd htree => exact ⟨_, _, rfl, htree⟩

namespace Editor

/-- All ids that a session looks at are ids of its tree. -/
structure ViewsTree (e : Editor) : Prop where
  selected : ∀ id, e.selected = some id → e.root.HasId id
  collapsed : ∀ id ∈ e.collapsed, e.root.HasId id

/-- The session `e'` looks at exactly those ids of `e` that its own tree has. -/
structure KeepsView (e e' : Editor) : Prop where
  selected : ∀ id, e'.selected = some id ↔ e.selected = some id ∧ e'.root.HasId id
  collapsed : ∀ id, id ∈ e'.collapsed ↔ id ∈ e.collapsed ∧ e'.root.HasId id

theorem KeepsView.viewsTree {e e' : Editor} (h : e.KeepsView e') : e'.ViewsTree :=
  ⟨fun id hid => ((h.selected id).mp hid).2, fun id hid => ((h.collapsed id).mp hid).2⟩

private theorem viewsTree_new (root : Node) : (new root).ViewsTree :=
  ⟨by simp [new], by simp [new]⟩

theorem keepsView_forgetMissingIds (e : Editor) : e.KeepsView e.forgetMissingIds := by
  constructor
  · intro id
    rw [forgetMissingIds, Option.filter_eq_some_iff]
    exact and_congr_right fun _ => Node.isSome_find?_iff
  · intro id
    rw [forgetMissingIds, List.mem_filter]
    exact and_congr_right fun _ => Node.isSome_find?_iff

theorem keepsView_commit (e : Editor) (tree : Node) : e.KeepsView (e.commit tree) :=
  have h := keepsView_forgetMissingIds { e with root := tree, history := e.root :: e.history }
  ⟨h.selected, h.collapsed⟩

section Step

variable {e e' : Editor} {x : Exchange}

theorem Step.keepsView (h : e.Step x e') (hx : x.isEdit = true ∨ x.isUndone = true) :
    e.KeepsView e' := by
  cases h with
  | edit hedited => exact e.keepsView_commit _
  | @undo previous history hhistory =>
    have h := keepsView_forgetMissingIds { e with root := previous, history }
    exact ⟨h.selected, h.collapsed⟩
  | select id => simp [Exchange.isEdit, Exchange.edited?, Exchange.isUndone] at hx
  | toggle id => simp [Exchange.isEdit, Exchange.edited?, Exchange.isUndone] at hx
  | stay hedited hundone => simp [Exchange.isEdit, hedited, hundone] at hx

theorem ViewsTree.step (he : e.ViewsTree) (h : e.Step x e')
    (hviewed : ∀ id, x.command.viewedId? = some id → e.root.HasId id) : e'.ViewsTree := by
  cases h with
  | edit hedited => exact (e.keepsView_commit _).viewsTree
  | undo hhistory => exact (keepsView_forgetMissingIds _).viewsTree
  | select id => exact ⟨hviewed, he.collapsed⟩
  | toggle id =>
    unfold toggleCollapsed
    split
    · exact ⟨he.selected, fun other hother => he.collapsed other (List.mem_filter.mp hother).1⟩
    · refine ⟨he.selected, List.forall_mem_append.mpr ⟨he.collapsed, ?_⟩⟩
      exact List.forall_mem_singleton.mpr (hviewed id rfl)
  | stay hedited hundone => exact he

end Step

private theorem hasId_of_update {e : Editor} {p q : String} {r tree : Node}
    (htree : e.root.update p r = .applied tree) (hq : e.root.HasId q) (hne : q ≠ p)
    (hbelow : p ∉ e.ancestorsOf q) : tree.HasId q := by
  obtain ⟨address, o, ho, rfl, hreplaced⟩ := Node.update_eq_applied_iff.mp htree
  obtain ⟨other, s, hs, rfl⟩ := Node.hasId_iff.mp hq
  rw [ancestorsOf_eq hs, Node.mem_above_iff hs] at hbelow
  have hprefix : ¬ address <+: other := by
    intro hprefix
    by_cases hsame : address = other
    · subst hsame
      rw [hs] at ho
      exact hne (congrArg Occurrence.id (Option.some.inj ho))
    · exact hbelow ⟨address, o, ho, rfl, hprefix, hsame⟩
  have hid := Node.map_id_occurrence?_replaceAt? hreplaced hprefix rootId
  rw [hs, Option.map_some, Option.map_eq_some_iff] at hid
  obtain ⟨s', hs', hid⟩ := hid
  exact Node.hasId_iff.mpr ⟨other, s', hs', hid⟩

private theorem viewsTree_run_take {root : Node} {commands : List EditorCommand}
    (hviewed : ∀ i command, commands[i]? = some command → ∀ id, command.viewedId? = some id →
      ((new root).run (commands.take i)).root.HasId id) (i : Nat) :
    ((new root).run (commands.take i)).ViewsTree := by
  induction i with
  | zero => exact viewsTree_new root
  | succ i ih =>
    rw [List.take_add_one]
    cases hcommand : commands[i]? with
    | none =>
      rw [Option.toList_none, List.append_nil]
      exact ih
    | some command =>
      rw [Option.toList_some, run_concat]
      exact ih.step (step_perform _ command) (hviewed i command hcommand)

/-- The view never dangles. In a session whose commands select and collapse ids of the current tree
only, the selected id and the collapsed ids are ids of the tree after every step. Whatever a session
looks at, an applied edit and an undo that goes back leave exactly the ids that the new tree has;
and an edit at the id `p` forgets no id of a node outside the tree below `p`. -/
theorem view_in_tree :
    (∀ (root : Node) (commands : List EditorCommand),
      (∀ i command, commands[i]? = some command → ∀ id, command.viewedId? = some id →
        ((new root).run (commands.take i)).root.HasId id) →
      ∀ i, ((new root).run (commands.take i)).ViewsTree) ∧
    (∀ (e : Editor) (command : EditorCommand),
      (e.exchange command).isEdit = true ∨ (e.exchange command).isUndone = true →
      e.KeepsView (e.perform command).1) ∧
    ∀ (e : Editor) (command : EditorCommand) (p : String),
      command.editedId? = some p → (e.exchange command).isEdit = true →
      ∀ q, e.root.HasId q → q ≠ p → p ∉ e.ancestorsOf q →
        (e.selected = some q → (e.perform command).1.selected = some q) ∧
          (q ∈ e.collapsed → q ∈ (e.perform command).1.collapsed) := by
  refine ⟨fun root commands hviewed => viewsTree_run_take hviewed,
    fun e command hx => (e.step_perform command).keepsView hx,
    fun e command p hp hx q hq hne hbelow => ?_⟩
  have hview := (e.step_perform command).keepsView (.inl hx)
  have hkept : (e.perform command).1.root.HasId q := by
    obtain ⟨tree, hedited, hcommit⟩ := (e.step_perform command).exists_edited hx
    obtain ⟨id, r, hid, htree⟩ := hedited.exists_update
    cases hp.symm.trans hid
    rw [hcommit, root_commit]
    exact hasId_of_update htree hq hne hbelow
  exact ⟨fun h => (hview.selected q).mpr ⟨h, hkept⟩, fun h => (hview.collapsed q).mpr ⟨h, hkept⟩⟩

/-- A text is selected as soon as it has been added, and forgotten when the addition is undone; a
selected root stays selected when a row below it is replaced. -/
theorem view_in_tree_sample :
    ((new sample.root).run (sampleCommands.take 5)).selected = some "root_0_Scaffold_3_Text_2" ∧
      ((new sample.root).run (sampleCommands.take 5)).ViewsTree ∧
      ((new sample.root).run (sampleCommands.take 5)).KeepsView
        (((new sample.root).run (sampleCommands.take 5)).perform .undo).1 ∧
      (((sample.select (some "root_0")).perform (.update "root_0_Row_2" (.row []))).1.selected =
        some "root_0") := by
  have hviewed : ∀ x ∈ sampleCommands.zipIdx, ∀ id ∈ x.1.viewedId?,
      ((new sample.root).run (sampleCommands.take x.2)).root.HasId id := by decide +kernel
  refine ⟨by decide +kernel, ?_, ?_, ?_⟩
  · refine view_in_tree.1 sample.root sampleCommands (fun i command hcommand id hid => ?_) 5
    exact hviewed (command, i) (List.mem_zipIdx_iff_getElem?.mpr hcommand) id hid
  · exact view_in_tree.2.1 _ .undo (.inr (by decide +kernel))
  · exact (view_in_tree.2.2 (sample.select (some "root_0")) _ "root_0_Row_2" rfl (by decide +kernel)
      "root_0" (by decide +kernel) (by decide) (by decide +kernel)).1 rfl

end Editor

end ScreenDoc
