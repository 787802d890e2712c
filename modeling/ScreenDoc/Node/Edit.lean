import ScreenDoc.Node.Index

/-!
# Tree edits

Edits make a new tree and leave the old one as it is. An address is the list of positions among
siblings that leads from the root to a node.
-/

namespace ScreenDoc

/-- What became of an edit, with a node or tree to go on with. -/
inductive EditOutcome where
  /-- The edit took effect; the rebuilt parent or tree. -/
  | applied (node : Node)
  /-- There is no parent; the node as it was given. -/
  | detached (node : Node)
  /-- The parent has no place for this; the node as it was given. -/
  | unsupported (node : Node)
  /-- No node has the id; the tree as it was. -/
  | notFound (node : Node)

namespace EditOutcome

def isApplied : EditOutcome → Bool
  | applied _ => true
  | _ => false

def node : EditOutcome → Node
  | applied n => n
  | detached n => n
  | unsupported n => n
  | notFound n => n

end EditOutcome

namespace Node

def placeholder : String :=
  "New Text Node"

/-- A text node gets the placeholder if it has no text. -/
def withDefaultText (n : Node) : Node :=
  if n.type.isText then
    match n.properties with
    | none => { n with properties := some (.text { text := some placeholder }) }
    | some (.text p) =>
      { n with properties := some (.text { p with text := some (p.text.getD placeholder) }) }
    | some _ => n
  else n

/-- Adds a node at the end of the child list of `parent`. -/
def addAsSibling (parent : Option Node) (n : Node) : EditOutcome :=
  match parent with
  | none => .detached n
  | some parent =>
    match parent.properties.bind fun p => do
        p.withChildList? ((← p.childList?) ++ [n.withDefaultText]) with
    | some p => .applied { parent with properties := some p }
    | none => .unsupported n

/-- Puts a node into the child slot of `parent`, over the child that is there. -/
def addAsChild (parent : Option Node) (n : Node) : EditOutcome :=
  match parent with
  | none => .detached n
  | some parent =>
    match parent.properties.bind (Properties.withChild? n.withDefaultText) with
    | some p => .applied { parent with properties := some p }
    | none => .unsupported n

def at? (n : Node) : List Nat → Option Node
  | [] => some n
  | position :: rest => n.children[position]?.bind fun c => c.at? rest

/-- The node with another child in one position. -/
def setChild (n : Node) (position : Nat) (child : Node) : Node :=
  n.mapChildren fun i c => if i = position then child else c

/-- The tree with the node at an address replaced. -/
def replaceAt? (n : Node) (address : List Nat) (replacement : Node) : Option Node :=
  match address with
  | [] => some replacement
  | position :: rest => do
    let child ← n.children[position]?
    some (n.setChild position (← child.replaceAt? rest replacement))

def address? (root : Node) (id : String) : Option (List Nat) :=
  let index := TreeIndex.build root
  (index.find? id).map index.positions

def update (root : Node) (id : String) (replacement : Node) : EditOutcome :=
  match root.address? id with
  | none => .notFound root
  | some address =>
    match root.replaceAt? address replacement with
    | some tree => .applied tree
    | none => .notFound root

end Node

end ScreenDoc
