import ScreenDoc.Node.Properties

/-!
# Paths of findings

Where in a payload something stands: the tree under `root`, or another section of a document. The
written form joins fields by points and puts indices in brackets.
-/

namespace ScreenDoc

inductive Path where
  /-- The root of the tree. -/
  | root
  /-- A section of a document. -/
  | top (key : String)
  | field (parent : Path) (key : String)
  | item (parent : Path) (index : Nat)
  deriving DecidableEq

namespace Path

def text : Path → String
  | root => "root"
  | top key => key
  | field parent key => parent.text ++ "." ++ key
  | item parent index => parent.text ++ "[" ++ toString index ++ "]"

/-- The path of a child in the payload at `p`. -/
def child (p : Path) (place : ChildPlace) : Path :=
  match place.index with
  | none => p.field place.field
  | some index => (p.field place.field).item index

def properties (p : Path) : Path :=
  p.field "properties"

def modifier (p : Path) : Path :=
  p.field "composeModifier"

def operation (p : Path) (index : Nat) : Path :=
  (p.modifier.field "operations").item index

end Path

end ScreenDoc
