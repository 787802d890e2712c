import ScreenDoc.Editor
import ScreenDoc.Proofs.Node.Lookup

/-!
# What a session does to its tree

A session changes its tree only by applied edits and by going back. An applied edit replaces the
node at the address of an id; adding a node replaces the parent by the parent with that node.
-/

namespace ScreenDoc

namespace Editor

@[simp] theorem root_commit (e : Editor) (tree : Node) : (e.commit tree).root = tree := rfl

@[simp] theorem history_commit (e : Editor) (tree : Node) :
    (e.commit tree).history = e.root :: e.history := rfl

@[simp] theorem root_forgetMissingIds (e : Editor) : e.forgetMissingIds.root = e.root := rfl

@[simp] theorem history_forgetMissingIds (e : Editor) :
    e.forgetMissingIds.history = e.history := rfl

@[simp] theorem root_toggleCollapsed (e : Editor) (id : String) :
    (e.toggleCollapsed id).1.root = e.root := by
  unfold toggleCollapsed
  split <;> rfl

@[simp] theorem history_toggleCollapsed (e : Editor) (id : String) :
    (e.toggleCollapsed id).1.history = e.history := by
  unfold toggleCollapsed
  split <;> rfl

theorem update_cases (e : Editor) (id : String) (r : Node) :
    (∃ tree, e.root.update id r = .applied tree ∧
      e.update id r = (e.commit tree, .applied tree)) ∨
    ((e.update id r).1 = e ∧ (e.update id r).2.isApplied = false) := by
  rw [update]
  cases h : e.root.update id r with
  | applied tree => exact .inl ⟨tree, rfl, rfl⟩
  | detached n => exact .inr ⟨rfl, rfl⟩
  | unsupported n => exact .inr ⟨rfl, rfl⟩
  | notFound n => exact .inr ⟨rfl, rfl⟩

theorem editParent_cases (e : Editor) (id : String) (n : Node)
    (edit : Option Node → Node → EditOutcome) (hnone : edit none n = .detached n) :
    (∃ parent updated tree, e.index.nodeWithId? id = some parent ∧
      edit (some parent) n = .applied updated ∧ e.root.update id updated = .applied tree ∧
      e.editParent id n edit = (e.commit tree, .applied tree)) ∨
    ((e.editParent id n edit).1 = e ∧ (e.editParent id n edit).2.isApplied = false) := by
  rw [editParent, ← TreeIndex.nodeWithId?]
  cases hparent : e.index.nodeWithId? id with
  | none =>
    rw [hnone]
    exact .inr ⟨rfl, rfl⟩
  | some parent =>
    cases hedit : edit (some parent) n with
    | applied updated =>
      refine (e.update_cases id updated).imp_left ?_
      rintro ⟨tree, htree, hupdate⟩
      exact ⟨parent, updated, tree, rfl, hedit, htree, hupdate⟩
    | detached n => exact .inr ⟨rfl, rfl⟩
    | unsupported n => exact .inr ⟨rfl, rfl⟩
    | notFound n => exact .inr ⟨rfl, rfl⟩

end Editor

def EditorCommand.node? : EditorCommand → Option Node
  | .addAsSibling _ node => some node
  | .addAsChild _ node => some node
  | .update _ replacement => some replacement
  | _ => none

/-- What the tree `root` becomes when a command is applied to it. -/
inductive Node.Edited (root : Node) : EditorCommand → Node → Prop where
  | update {id : String} {replacement tree : Node}
    (htree : root.update id replacement = .applied tree) :
    root.Edited (.update id replacement) tree
  | addAsSibling {id : String} {n parent updated tree : Node}
    (hparent : (TreeIndex.build root).nodeWithId? id = some parent)
    (hadd : Node.addAsSibling (some parent) n = .applied updated)
    (htree : root.update id updated = .applied tree) : root.Edited (.addAsSibling id n) tree
  | addAsChild {id : String} {n parent updated tree : Node}
    (hparent : (TreeIndex.build root).nodeWithId? id = some parent)
    (hadd : Node.addAsChild (some parent) n = .applied updated)
    (htree : root.update id updated = .applied tree) : root.Edited (.addAsChild id n) tree

namespace Editor

structure Exchange where
  command : EditorCommand
  answer : EditorAnswer

namespace Exchange

def edited? (x : Exchange) : Option Node :=
  match x.answer with
  | .outcome (.applied tree) => some tree
  | _ => none

def isEdit (x : Exchange) : Bool :=
  x.edited?.isSome

def isUndone (x : Exchange) : Bool :=
  match x with
  | ⟨.undo, .flag true⟩ => true
  | _ => false

private theorem edited?_outcome {command : EditorCommand} {outcome : EditOutcome}
    (h : outcome.isApplied = false) : edited? ⟨command, .outcome outcome⟩ = none := by
  cases outcome <;> first | rfl | cases h

private theorem isUndone_outcome (command : EditorCommand) (outcome : EditOutcome) :
    isUndone ⟨command, .outcome outcome⟩ = false := by
  cases command <;> rfl

end Exchange

def exchange (e : Editor) (command : EditorCommand) : Exchange :=
  ⟨command, (e.perform command).2⟩

/-- What an exchange makes of a session: an applied edit goes on with the edited tree, an undo with
the tree before, a selection or a toggle changes what is looked at, and everything else leaves the
session as it is. -/
inductive Step (e : Editor) : Exchange → Editor → Prop where
  | edit {command : EditorCommand} {tree : Node} (hedited : e.root.Edited command tree) :
      e.Step ⟨command, .outcome (.applied tree)⟩ (e.commit tree)
  | undo {previous : Node} {history : List Node} (hhistory : e.history = previous :: history) :
      e.Step ⟨.undo, .flag true⟩ { e with root := previous, history }.forgetMissingIds
  | select (id : Option String) : e.Step ⟨.select id, .done⟩ (e.select id)
  | toggle (id : String) :
      e.Step ⟨.toggleCollapsed id, .flag (e.toggleCollapsed id).2⟩ (e.toggleCollapsed id).1
  | stay {x : Exchange} (hedited : x.edited? = none) (hundone : x.isUndone = false) : e.Step x e

theorem Step.refused {e e' : Editor} {outcome : EditOutcome} (command : EditorCommand)
    (hsame : e' = e) (h : outcome.isApplied = false) :
    e.Step ⟨command, .outcome outcome⟩ e' := by
  subst hsame
  exact .stay (Exchange.edited?_outcome h) (Exchange.isUndone_outcome command outcome)

theorem step_perform (e : Editor) (command : EditorCommand) :
    e.Step (e.exchange command) (e.perform command).1 := by
  rw [exchange]
  cases command with
  | addAsSibling id n =>
    rw [perform, addAsSibling]
    rcases e.editParent_cases id n Node.addAsSibling rfl with
      ⟨parent, updated, tree, hparent, hadd, htree, hedit⟩ | ⟨hsame, hrefused⟩
    · rw [hedit]
      exact .edit (.addAsSibling hparent hadd htree)
    · exact .refused _ hsame hrefused
  | addAsChild id n =>
    rw [perform, addAsChild]
    rcases e.editParent_cases id n Node.addAsChild rfl with
      ⟨parent, updated, tree, hparent, hadd, htree, hedit⟩ | ⟨hsame, hrefused⟩
    · rw [hedit]
      exact .edit (.addAsChild hparent hadd htree)
    · exact .refused _ hsame hrefused
  | update id replacement =>
    rw [perform]
    rcases e.update_cases id replacement with ⟨tree, htree, hedit⟩ | ⟨hsame, hrefused⟩
    · rw [hedit]
      exact .edit (.update htree)
    · exact .refused _ hsame hrefused
  | undo =>
    rw [perform]
    cases hhistory : e.history with
    | nil =>
      simp only [undo, hhistory]
      exact .stay rfl rfl
    | cons previous history =>
      simp only [undo, hhistory]
      exact .undo hhistory
  | select id => exact .select id
  | toggleCollapsed id => exact .toggle id
  | _ => exact .stay rfl rfl

theorem Step.exists_edited {e e' : Editor} {x : Exchange} (h : e.Step x e') (hx : x.isEdit = true) :
    ∃ tree, e.root.Edited x.command tree ∧ e' = e.commit tree := by
  cases h with
  | @edit command tree hedited => exact ⟨tree, hedited, rfl⟩
  | stay hedited hundone => simp [Exchange.isEdit, hedited] at hx
  | _ => cases hx

theorem run_concat (e : Editor) (commands : List EditorCommand) (command : EditorCommand) :
    e.run (commands ++ [command]) = ((e.run commands).perform command).1 := by
  rw [run, List.foldl_append]
  rfl

/-- A session over a column of a text, a row and a scaffold with a bar. -/
def sample : Editor :=
  .new <| .column [.plainText "title", .row [.plainText "left"],
    { type := .scaffold,
      properties := some (.scaffold { topBar := some (.plainText "top") }) }]

/-- Two additions that apply, one of them of a text node without text, one that does not, an undo
and the replacement of the whole tree. -/
def sampleCommands : List EditorCommand :=
  [.addAsSibling "root_0_Row_2" { type := .text }, .toggleCollapsed "root_0_Row_2",
    .addAsChild "root_0_Scaffold_3" (.plainText "body"),
    .addAsSibling "root_0_Text_1" (.plainText "lost"),
    .select (some "root_0_Scaffold_3_Text_2"), .undo, .update "root_0" (.row [])]

end Editor

end ScreenDoc
