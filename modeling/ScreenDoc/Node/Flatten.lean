import ScreenDoc.Node.Basic

/-!
# Derived ids and rows

Ids are not stored: the id of a node is made of its parent's id, its type and its position. A
flattened tree lists the nodes in depth-first order, a parent before its children; the children
of a collapsed row are left out.
-/

namespace ScreenDoc

def Node.rootId : String :=
  "root_0"

/-- The id of the child with this type and position. -/
def NodeType.childId (type : NodeType) (parentId : String) (position : Nat) : String :=
  parentId ++ "_" ++ type.name ++ "_" ++ toString (position + 1)

structure Row where
  depth : Nat
  node : Node
  id : String

namespace Node

/-- The visible rows of a tree whose root has this depth and id. -/
def rows (n : Node) (collapsed : List String) (depth : Nat) (id : String) : List Row :=
  ⟨depth, n, id⟩ ::
    if collapsed.contains id then []
    else n.children.attach.zipIdx.flatMap fun (⟨c, _⟩, position) =>
      c.rows collapsed (depth + 1) (c.type.childId id position)
termination_by sizeOf n
decreasing_by exact sizeOf_child_lt ‹_›

def flattenVisible (root : Node) (collapsed : List String) : List Row :=
  root.rows collapsed 0 rootId

def flatten (root : Node) : List Row :=
  root.flattenVisible []

end Node

end ScreenDoc
