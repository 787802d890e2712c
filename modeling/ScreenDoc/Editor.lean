import ScreenDoc.Node.Edit

/-!
# Editor sessions

A session holds a tree and what is looked at: a selected id and the collapsed ids, which are
forgotten as soon as no node has them. Every applied edit keeps the tree before it, so that it can
be undone. `perform` carries out one command; a session is a run of commands.
-/

namespace ScreenDoc

structure Editor where
  root : Node
  selected : Option String := none
  /-- The collapsed ids, each once. -/
  collapsed : List String := []
  /-- The trees before the applied edits, the latest first. -/
  history : List Node := []

inductive EditorCommand where
  | select (id : Option String)
  | toggleCollapsed (id : String)
  | isCollapsed (id : String)
  | ancestorsOf (id : String)
  | isAncestorExpanded (id : String)
  | visibleRows
  | addAsSibling (parentId : String) (node : Node)
  | addAsChild (parentId : String) (node : Node)
  | update (id : String) (replacement : Node)
  | undo

inductive EditorAnswer where
  | done
  | flag (value : Bool)
  | ids (ids : List String)
  | rows (rows : List Row)
  | outcome (outcome : EditOutcome)

namespace Editor

def new (root : Node) : Editor :=
  { root }

def index (e : Editor) : TreeIndex :=
  TreeIndex.build e.root

def canUndo (e : Editor) : Bool :=
  !e.history.isEmpty

def isCollapsed (e : Editor) (id : String) : Bool :=
  e.collapsed.contains id

def select (e : Editor) (id : Option String) : Editor :=
  { e with selected := id }

/-- Flips whether an id is collapsed; also says how it is now. -/
def toggleCollapsed (e : Editor) (id : String) : Editor × Bool :=
  if e.isCollapsed id then ({ e with collapsed := e.collapsed.filter (· != id) }, false)
  else ({ e with collapsed := e.collapsed ++ [id] }, true)

def ancestorsOf (e : Editor) (id : String) : List String :=
  match e.index.find? id with
  | some handle => e.index.ancestorIds handle
  | none => []

/-- Whether the node exists and no ancestor of it is collapsed. -/
def isAncestorExpanded (e : Editor) (id : String) : Bool :=
  match e.index.find? id with
  | some handle => e.index.isAncestorExpanded e.collapsed handle
  | none => false

def visibleRows (e : Editor) : List Row :=
  e.root.flattenVisible e.collapsed

def forgetMissingIds (e : Editor) : Editor :=
  let present (id : String) : Bool := (e.index.find? id).isSome
  { e with selected := e.selected.filter present, collapsed := e.collapsed.filter present }

def commit (e : Editor) (tree : Node) : Editor :=
  { e with root := tree, history := e.root :: e.history }.forgetMissingIds

def update (e : Editor) (id : String) (replacement : Node) : Editor × EditOutcome :=
  match e.root.update id replacement with
  | .applied tree => (e.commit tree, .applied tree)
  | outcome => (e, outcome)

/-- Edits the node with an id as a parent and puts it back. -/
def editParent (e : Editor) (parentId : String) (node : Node)
    (edit : Option Node → Node → EditOutcome) : Editor × EditOutcome :=
  let parent := (e.index.find? parentId).bind e.index.node?
  match edit parent node with
  | .applied parent => e.update parentId parent
  | outcome => (e, outcome)

def addAsSibling (e : Editor) (parentId : String) (node : Node) : Editor × EditOutcome :=
  e.editParent parentId node Node.addAsSibling

def addAsChild (e : Editor) (parentId : String) (node : Node) : Editor × EditOutcome :=
  e.editParent parentId node Node.addAsChild

/-- Goes back to the tree before the last applied edit; says whether there was one. -/
def undo (e : Editor) : Editor × Bool :=
  match e.history with
  | [] => (e, false)
  | previous :: history => ({ e with root := previous, history }.forgetMissingIds, true)

def perform (e : Editor) : EditorCommand → Editor × EditorAnswer
  | .select id => (e.select id, .done)
  | .toggleCollapsed id =>
    let (e, collapsed) := e.toggleCollapsed id
    (e, .flag collapsed)
  | .isCollapsed id => (e, .flag (e.isCollapsed id))
  | .ancestorsOf id => (e, .ids (e.ancestorsOf id))
  | .isAncestorExpanded id => (e, .flag (e.isAncestorExpanded id))
  | .visibleRows => (e, .rows e.visibleRows)
  | .addAsSibling parentId node =>
    let (e, outcome) := e.addAsSibling parentId node
    (e, .outcome outcome)
  | .addAsChild parentId node =>
    let (e, outcome) := e.addAsChild parentId node
    (e, .outcome outcome)
  | .update id replacement =>
    let (e, outcome) := e.update id replacement
    (e, .outcome outcome)
  | .undo =>
    let (e, undone) := e.undo
    (e, .flag undone)

def run (e : Editor) (commands : List EditorCommand) : Editor :=
  commands.foldl (fun e command => (e.perform command).1) e

end Editor

end ScreenDoc
