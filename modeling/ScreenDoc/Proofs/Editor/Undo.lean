import ScreenDoc.Proofs.Editor.Edits

/-!
# Going back

The trees that a session has been through make a stack: an applied edit puts the new tree on top,
an undo that goes back takes the top away. A session shows the top of this stack after every run,
and as many undos as there were applied edits lead back to the tree that it began with.
-/

namespace ScreenDoc

namespace Editor

def transcript (e : Editor) : List EditorCommand → List Exchange
  | [] => []
  | command :: commands =>
    e.exchange command :: (e.perform command).1.transcript commands

/-- What an exchange makes of a stack of trees. -/
def Exchange.stack (trees : List Node) (x : Exchange) : List Node :=
  match x.edited? with
  | some tree => tree :: trees
  | none => if x.isUndone then trees.tail else trees

def trees (e : Editor) : List Node :=
  e.root :: e.history

theorem run_cons (e : Editor) (command : EditorCommand) (commands : List EditorCommand) :
    e.run (command :: commands) = (e.perform command).1.run commands := rfl

private theorem canUndo_iff (e : Editor) : e.canUndo = true ↔ 1 < e.trees.length := by
  rw [canUndo, trees]
  cases e.history <;> simp

/-! ## Single steps -/

section Step

variable {e e' : Editor} {x : Exchange}

private theorem Step.trees_eq (h : e.Step x e') : e'.trees = x.stack e.trees := by
  cases h with
  | edit hedited => rfl
  | undo hhistory =>
    rw [trees, trees, hhistory]
    rfl
  | select id => rfl
  | toggle id =>
    rw [trees, root_toggleCollapsed, history_toggleCollapsed]
    rfl
  | stay hedited hundone =>
    simp only [Exchange.stack, hedited, hundone, Bool.false_eq_true, if_false]

private theorem Step.getLast?_trees (h : e.Step x e') : e'.trees.getLast? = e.trees.getLast? := by
  cases h with
  | edit hedited => exact List.getLast?_cons_cons
  | undo hhistory =>
    rw [trees, trees, hhistory]
    exact List.getLast?_cons_cons.symm
  | select id => rfl
  | toggle id => rw [trees, root_toggleCollapsed, history_toggleCollapsed, trees]
  | stay hedited hundone => rfl

private theorem Step.length_history (h : e.Step x e') :
    e'.history.length + (if x.isUndone then 1 else 0) =
      e.history.length + (if x.isEdit then 1 else 0) := by
  cases h with
  | edit hedited => simp [Exchange.isEdit, Exchange.isUndone, Exchange.edited?]
  | undo hhistory => simp [Exchange.isEdit, Exchange.isUndone, Exchange.edited?, hhistory]
  | select id => rfl
  | toggle id => simp [Exchange.isEdit, Exchange.isUndone, Exchange.edited?]
  | stay hedited hundone => simp [Exchange.isEdit, hedited, hundone]

end Step

/-! ## Runs -/

private theorem trees_run (e : Editor) (commands : List EditorCommand) :
    (e.run commands).trees = (e.transcript commands).foldl Exchange.stack e.trees := by
  induction commands generalizing e with
  | nil => rfl
  | cons command commands ih =>
    rw [run_cons, ih, transcript, List.foldl_cons, (e.step_perform command).trees_eq]

theorem getLast?_trees_run (e : Editor) (commands : List EditorCommand) :
    (e.run commands).trees.getLast? = e.trees.getLast? := by
  induction commands generalizing e with
  | nil => rfl
  | cons command commands ih => rw [run_cons, ih, (e.step_perform command).getLast?_trees]

private theorem length_history_run (e : Editor) (commands : List EditorCommand) :
    (e.run commands).history.length + (e.transcript commands).countP Exchange.isUndone =
      e.history.length + (e.transcript commands).countP Exchange.isEdit := by
  induction commands generalizing e with
  | nil => rfl
  | cons command commands ih =>
    have hstep := (e.step_perform command).length_history
    have hrest := ih (e.perform command).1
    rw [run_cons, transcript, List.countP_cons, List.countP_cons]
    omega

private theorem undo_history {e : Editor} {n : Nat} (hn : e.history.length = n) :
    e.transcript (List.replicate n .undo) = List.replicate n ⟨.undo, .flag true⟩ ∧
      (e.run (List.replicate n .undo)).history = [] := by
  induction n generalizing e with
  | zero => exact ⟨rfl, List.length_eq_zero_iff.mp hn⟩
  | succ n ih =>
    obtain ⟨previous, history, hhistory⟩ := List.exists_cons_of_length_eq_add_one hn
    have hundo : e.perform .undo =
        ({ e with root := previous, history }.forgetMissingIds, .flag true) := by
      simp only [perform, undo, hhistory]
    have hlength : history.length = n := by
      rw [hhistory] at hn
      exact Nat.succ.inj hn
    have hrest := ih (e := { e with root := previous, history }.forgetMissingIds) hlength
    rw [List.replicate_succ, transcript, exchange, run_cons, hundo, hrest.1, hrest.2]
    exact ⟨rfl, rfl⟩

/-- Undo is a stack. Let the tree that a session begins with be on a stack, each applied edit push
the new tree and each undo that goes back pop one: after every run the session shows the top, and
it can go back if there is more than one tree. If `n` more edits were applied than were undone,
then `n` undos go back to the tree of the beginning, and one more undo answers that it does not and
changes nothing. -/
theorem undo_stack (root : Node) (commands : List EditorCommand) :
    let e := (new root).run commands
    let exchanges := (new root).transcript commands
    let trees := exchanges.foldl Exchange.stack [root]
    trees.head? = some e.root ∧
      (e.canUndo = true ↔ 1 < trees.length) ∧
      ∀ n, exchanges.countP Exchange.isEdit = exchanges.countP Exchange.isUndone + n →
        e.transcript (List.replicate n .undo) = List.replicate n ⟨.undo, .flag true⟩ ∧
          (e.run (List.replicate n .undo)).root = root ∧
          (e.run (List.replicate n .undo)).perform .undo =
            (e.run (List.replicate n .undo), .flag false) := by
  intro e exchanges trees
  have htrees : e.trees = trees := (new root).trees_run commands
  refine ⟨?_, ?_, fun n hn => ?_⟩
  · rw [← htrees]
    rfl
  · rw [← htrees]
    exact e.canUndo_iff
  · have hcount : e.history.length + exchanges.countP Exchange.isUndone =
        0 + exchanges.countP Exchange.isEdit := (new root).length_history_run commands
    have hlength : e.history.length = n := by omega
    obtain ⟨hundone, hempty⟩ := undo_history hlength
    refine ⟨hundone, ?_, ?_⟩
    · have hlast : (e.run (List.replicate n .undo)).trees.getLast? = some root := by
        rw [getLast?_trees_run]
        exact (new root).getLast?_trees_run commands
      rw [Editor.trees, hempty] at hlast
      exact Option.some.inj hlast
    · simp only [perform, undo, hempty]

/-- Three edits that apply, one that does not, and one undo: two more undos go back. -/
theorem undo_stack_sample :
    ((new sample.root).transcript sampleCommands).countP Exchange.isEdit =
        ((new sample.root).transcript sampleCommands).countP Exchange.isUndone + 2 ∧
      (((new sample.root).run sampleCommands).run (List.replicate 2 .undo)).root = sample.root := by
  have hcount : ((new sample.root).transcript sampleCommands).countP Exchange.isEdit =
      ((new sample.root).transcript sampleCommands).countP Exchange.isUndone + 2 := by
    decide +kernel
  exact ⟨hcount, ((undo_stack sample.root sampleCommands).2.2 2 hcount).2.1⟩

end Editor

end ScreenDoc
