import ScreenDoc.Binary64.Basic

/-!
# Modifiers

The chain of visual operations on a node. Operations form a pipeline that is applied from left to
right, so their order matters.
-/

namespace ScreenDoc

/-- Corner radii: `radius` is for all corners, a field for one corner goes before it. -/
structure CornerRadii where
  radius : Option Int32 := none
  topStart : Option Int32 := none
  topEnd : Option Int32 := none
  bottomEnd : Option Int32 := none
  bottomStart : Option Int32 := none
  deriving DecidableEq, Inhabited

/-- The radii of the four corners: top start, top end, bottom end, bottom start. -/
def CornerRadii.resolved (r : CornerRadii) : List Int32 :=
  let base := r.radius.getD 0
  [r.topStart.getD base, r.topEnd.getD base, r.bottomEnd.getD base, r.bottomStart.getD base]

inductive Shape where
  | rectangle
  | circle
  | roundedCorner (radii : CornerRadii)
  deriving DecidableEq, Inhabited

namespace Shape

def rounded (radius : Int32) : Shape :=
  roundedCorner { radius := some radius }

def tags : List String :=
  ["Rectangle", "Circle", "RoundedCorner"]

def tag : Shape → String
  | rectangle => "Rectangle"
  | circle => "Circle"
  | roundedCorner _ => "RoundedCorner"

def fieldsOf (tag : String) : List String :=
  if tag = "RoundedCorner" then ["radius", "topStart", "topEnd", "bottomEnd", "bottomStart"] else []

end Shape

inductive Operation where
  | padding (value : Int32)
  | fillMaxSize
  | fillMaxWidth
  | fillMaxHeight
  | width (value : Int32)
  | height (value : Int32)
  | backgroundColor (color : String)
  | border (width : Int32) (color : String)
  | shadow (elevation : Int32)
  | clip (shape : Shape)
  | background (color : String) (shape : Shape)
  | alpha (value : Binary64.Extended)
  | rotate (degrees : Binary64.Extended)
  deriving DecidableEq, Inhabited

namespace Operation

def tags : List String :=
  ["Padding", "FillMaxSize", "FillMaxWidth", "FillMaxHeight", "Width", "Height",
    "BackgroundColor", "Border", "Shadow", "Clip", "Background", "Alpha", "Rotate"]

def tag : Operation → String
  | padding _ => "Padding"
  | fillMaxSize => "FillMaxSize"
  | fillMaxWidth => "FillMaxWidth"
  | fillMaxHeight => "FillMaxHeight"
  | width _ => "Width"
  | height _ => "Height"
  | backgroundColor _ => "BackgroundColor"
  | border _ _ => "Border"
  | shadow _ => "Shadow"
  | clip _ => "Clip"
  | background _ _ => "Background"
  | alpha _ => "Alpha"
  | rotate _ => "Rotate"

def isKnownTag (tag : String) : Bool :=
  tags.contains tag

def same : Operation → Operation → Bool
  | alpha a, alpha b => a.sameValue b
  | rotate a, rotate b => a.sameValue b
  | a, b => a == b

end Operation

/-- The operations on a node, applied in order. -/
structure Modifier where
  operations : List Operation := []
  deriving DecidableEq, Inhabited

namespace Modifier

def isEmpty (m : Modifier) : Bool :=
  m.operations.isEmpty

def append (m : Modifier) (operation : Operation) : Modifier :=
  ⟨m.operations ++ [operation]⟩

def same (a b : Modifier) : Bool :=
  a.operations.length == b.operations.length
    && (a.operations.zip b.operations).all fun (x, y) => x.same y

end Modifier

end ScreenDoc
