import ScreenDoc.Proofs.Editor.Edits
import ScreenDoc.Proofs.Validate.Edit

/-!
# Sessions keep trees clean

A session is clean if its tree and all trees that it can go back to are clean. Every command keeps
it so, as long as the node that the command brings in is clean.
-/

namespace ScreenDoc

open Node (rootId)

namespace Node

theorem validate_nodeWithId? {root n : Node} {id : String} (hroot : root.validate = [])
    (hn : (TreeIndex.build root).nodeWithId? id = some n) : n.validate = [] := by
  obtain ⟨address, o, ho, -, rfl⟩ := TreeIndex.nodeWithId?_eq_some_iff.mp hn
  exact validate_at? hroot (at?_of_occurrence? ho)

theorem validate_update {root r tree : Node} {id : String} (hroot : root.validate = [])
    (hr : r.validate = []) (htree : root.update id r = .applied tree) : tree.validate = [] := by
  obtain ⟨address, o, -, -, hreplaced⟩ := update_eq_applied_iff.mp htree
  exact validate_replaceAt? hroot hr hreplaced

theorem Edited.validate {root tree : Node} {command : EditorCommand}
    (h : root.Edited command tree) (hroot : root.validate = [])
    (hnode : ∀ n ∈ command.node?, n.validate = []) : tree.validate = [] := by
  cases h with
  | update htree => exact validate_update hroot (hnode _ rfl) htree
  | addAsSibling hparent hadd htree =>
    have hclean := validate_nodeWithId? hroot hparent
    exact validate_update hroot (validate_addAsSibling hclean (hnode _ rfl) hadd) htree
  | addAsChild hparent hadd htree =>
    have hclean := validate_nodeWithId? hroot hparent
    exact validate_update hroot (validate_addAsChild hclean (hnode _ rfl) hadd) htree

end Node

namespace Editor

structure IsClean (e : Editor) : Prop where
  root : e.root.validate = []
  history : ∀ tree ∈ e.history, tree.validate = []

theorem IsClean.step {e e' : Editor} {x : Exchange} (he : e.IsClean) (hstep : e.Step x e')
    (hnode : ∀ n ∈ x.command.node?, n.validate = []) : e'.IsClean := by
  cases hstep with
  | edit hedited =>
    refine ⟨hedited.validate he.root hnode, ?_⟩
    rw [history_commit]
    exact List.forall_mem_cons.mpr ⟨he.root, he.history⟩
  | undo hhistory =>
    have hclean := List.forall_mem_cons.mp (hhistory ▸ he.history)
    exact ⟨hclean.1, hclean.2⟩
  | select id => exact ⟨he.root, he.history⟩
  | toggle id =>
    exact ⟨root_toggleCollapsed e id ▸ he.root, history_toggleCollapsed e id ▸ he.history⟩
  | stay hedited hundone => exact he

theorem IsClean.run {e : Editor} {commands : List EditorCommand} (he : e.IsClean)
    (hnodes : ∀ command ∈ commands, ∀ n ∈ command.node?, n.validate = []) :
    (e.run commands).IsClean := by
  induction commands generalizing e with
  | nil => exact he
  | cons command commands ih =>
    obtain ⟨hnode, hrest⟩ := List.forall_mem_cons.mp hnodes
    exact ih (he.step (e.step_perform command) hnode) hrest

/-- A session that begins with a clean tree, and whose commands bring in clean nodes only, has a
clean tree after every step. -/
theorem run_validate_isClean {root : Node} {commands : List EditorCommand}
    (hroot : Finding.isClean root.validate = true)
    (hnodes : ∀ command ∈ commands, ∀ n ∈ command.node?, Finding.isClean n.validate = true)
    (steps : List EditorCommand) (hsteps : steps <+: commands) :
    Finding.isClean ((Editor.new root).run steps).root.validate = true := by
  simp only [Finding.isClean, List.isEmpty_iff] at hroot hnodes ⊢
  have hnew : (Editor.new root).IsClean := ⟨hroot, fun tree htree => by cases htree⟩
  exact (hnew.run fun command hcommand => hnodes command (hsteps.subset hcommand)).root

theorem run_validate_isClean_sample :
    (Finding.isClean sample.root.validate = true ∧
      (∀ command ∈ sampleCommands, ∀ n ∈ command.node?, Finding.isClean n.validate = true) ∧
      sampleCommands.take 5 <+: sampleCommands) ∧
    (((Editor.new sample.root).run (sampleCommands.take 5)).history.length = 2 ∧
      Finding.isClean ((Editor.new sample.root).run (sampleCommands.take 5)).root.validate =
        true) := by
  have hroot : Finding.isClean sample.root.validate = true := by decide +kernel
  have hnodes : ∀ command ∈ sampleCommands, ∀ n ∈ command.node?,
      Finding.isClean n.validate = true := by decide +kernel
  have hsteps : sampleCommands.take 5 <+: sampleCommands := List.take_prefix 5 sampleCommands
  exact ⟨⟨hroot, hnodes, hsteps⟩, by decide +kernel,
    run_validate_isClean hroot hnodes (sampleCommands.take 5) hsteps⟩

end Editor

end ScreenDoc
