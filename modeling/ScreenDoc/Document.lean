import ScreenDoc.Action
import ScreenDoc.Node.Basic

/-!
# Documents

A document holds the initial state, named scripts and the root of the tree. A payload is what
arrives: a document, or a bare node, which stands for a document without state and scripts.
-/

namespace ScreenDoc

structure Document where
  initialState : Json.Map := ∅
  actions : SortedMap (List Action) := ∅
  root : Node
  deriving Inhabited

namespace Document

def fieldNames : List String :=
  ["initialState", "actions", "root"]

def withState (d : Document) (key : String) (value : Json.Value) : Document :=
  { d with initialState := d.initialState.insert key value }

def withActions (d : Document) (name : String) (actions : List Action) : Document :=
  { d with actions := d.actions.insert name actions }

def sameActions (a b : KeyMap (List Action)) : Bool :=
  a.length == b.length
    && (a.zip b).all fun ((k, xs), (l, ys)) => k == l && Action.sameList xs ys

def same (a b : Document) : Bool :=
  Json.sameFields a.initialState.fields b.initialState.fields
    && sameActions a.actions.entries b.actions.entries
    && a.root == b.root

instance : BEq Document := ⟨same⟩

end Document

inductive Payload where
  | node (node : Node)
  | document (document : Document)

namespace Payload

def root : Payload → Node
  | node n => n
  | document d => d.root

/-- The payload as a document; a bare node has neither state nor scripts. -/
def toDocument : Payload → Document
  | node n => { root := n }
  | document d => d

end Payload

/-- An object with a `root` and no `type` is a document; anything else is taken for a node. -/
def Json.isDocument (j : Json) : Bool :=
  (j.field? "root").isSome && (j.field? "type").isNone

/-- An object with sections of a document but neither a `root` nor a `type`. -/
def Json.isRootlessDocument (j : Json) : Bool :=
  (j.field? "root").isNone && (j.field? "type").isNone
    && ((j.field? "initialState").isSome || (j.field? "actions").isSome)

end ScreenDoc
