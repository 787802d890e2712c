import ScreenDoc.Node.Flatten

/-!
# Tree indices

An index numbers the nodes of a tree in depth-first order and keeps for each its id, its depth and
the numbers of its parent and children, so that questions about ancestors need no walk down from
the root. Number zero is the root, and every parent has a smaller number than its children.
-/

namespace ScreenDoc

structure IndexEntry where
  node : Node
  id : String
  parent : Option Nat
  depth : Nat
  children : List Nat

/-- The entries of a tree, by number. -/
structure TreeIndex where
  entries : List IndexEntry

/-- What has been laid out of the children of a node: the next free number, the numbers of the
children and the entries below them. -/
structure ChildLayout where
  next : Nat
  handles : List Nat
  entries : List IndexEntry

def ChildLayout.add (layout : ChildLayout) (entries : List IndexEntry) : ChildLayout :=
  ⟨layout.next + entries.length, layout.handles ++ [layout.next], layout.entries ++ entries⟩

namespace Node

/-- The entries of a tree whose root has the number `handle`. -/
def indexEntries (n : Node) (parent : Option Nat) (id : String) (depth handle : Nat) :
    List IndexEntry :=
  let layout := n.children.attach.zipIdx.foldl
    (fun layout (⟨c, _⟩, position) =>
      layout.add (c.indexEntries (some handle) (c.type.childId id position) (depth + 1)
        layout.next))
    (⟨handle + 1, [], []⟩ : ChildLayout)
  ⟨n, id, parent, depth, layout.handles⟩ :: layout.entries
termination_by sizeOf n
decreasing_by exact sizeOf_child_lt ‹_›

end Node

namespace TreeIndex

def build (root : Node) : TreeIndex :=
  ⟨root.indexEntries none Node.rootId 0 0⟩

def size (t : TreeIndex) : Nat :=
  t.entries.length

/-- The numbers of all nodes, parents before children. -/
def handles (t : TreeIndex) : List Nat :=
  List.range t.size

def node? (t : TreeIndex) (handle : Nat) : Option Node :=
  t.entries[handle]?.map IndexEntry.node

def parent? (t : TreeIndex) (handle : Nat) : Option Nat :=
  t.entries[handle]?.bind IndexEntry.parent

def depth? (t : TreeIndex) (handle : Nat) : Option Nat :=
  t.entries[handle]?.map IndexEntry.depth

def childrenOf (t : TreeIndex) (handle : Nat) : List Nat :=
  (t.entries[handle]?.map IndexEntry.children).getD []

def find? (t : TreeIndex) (id : String) : Option Nat :=
  t.entries.findIdx? fun entry => entry.id == id

/-- The ancestors of a node, from its parent up to the root. -/
def ancestors (t : TreeIndex) (handle : Nat) : List Nat :=
  match t.parent? handle with
  | none => []
  | some parent => if parent < handle then parent :: t.ancestors parent else []
termination_by handle

def ancestorIds (t : TreeIndex) (handle : Nat) : List String :=
  (t.ancestors handle).filterMap fun h => t.entries[h]?.map IndexEntry.id

def isAncestorExpanded (t : TreeIndex) (collapsed : List String) (handle : Nat) : Bool :=
  (t.ancestorIds handle).all fun id => !collapsed.contains id

/-- The positions among siblings that lead from the root to a node. -/
def positions (t : TreeIndex) (handle : Nat) : List Nat :=
  match t.parent? handle with
  | none => []
  | some parent =>
    if parent < handle then
      t.positions parent ++ [((t.childrenOf parent).findIdx? (· == handle)).getD 0]
    else []
termination_by handle

end TreeIndex

end ScreenDoc
