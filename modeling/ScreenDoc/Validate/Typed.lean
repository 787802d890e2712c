import ScreenDoc.Binary64.Decimal
import ScreenDoc.Finding
import ScreenDoc.Node.Basic
import ScreenDoc.Validate.Path
import ScreenDoc.Validate.Rules

/-!
# Rules on nodes

What is checked of a tree once it is decoded: that payloads belong to their nodes, that leaves
hold no children, and that words, colors and measures are allowed. A node is reported before its
children, and its payload before its modifier.
-/

namespace ScreenDoc

namespace Properties

variable {α : Type}

def checkWord (value : Option String) (allowed : List String) (code : ErrorCode) (path : Path) :
    List Finding :=
  match value with
  | none => []
  | some value =>
    if allowed.contains value then []
    else [.error path.text code ("'" ++ value ++ "' is not one of " ++ ", ".intercalate allowed)]

/-- A color that is not written as one. -/
def checkColor (color : String) (path : Path) : List Finding :=
  if Rules.isHexColor color then []
  else [.error path.text .invalidHexColor ("'" ++ color ++ "' is not a #AARRGGBB color")]

/-- Arrangements, alignments and the color of a payload. -/
def checkFields (p : Properties α) (path : Path) : List Finding :=
  match p with
  | column p =>
    checkWord p.verticalArrangement Rules.columnVerticalArrangements .invalidArrangement
        (path.field "verticalArrangement")
      ++ checkWord p.horizontalAlignment Rules.columnHorizontalAlignments .invalidAlignment
        (path.field "horizontalAlignment")
  | row p =>
    checkWord p.horizontalArrangement Rules.rowHorizontalArrangements .invalidArrangement
        (path.field "horizontalArrangement")
      ++ checkWord p.verticalAlignment Rules.rowVerticalAlignments .invalidAlignment
        (path.field "verticalAlignment")
  | box p =>
    checkWord p.contentAlignment Rules.boxContentAlignments .invalidAlignment
      (path.field "contentAlignment")
  | text p =>
    match p.color with
    | none => []
    | some color => checkColor color (path.field "color")
  | _ => []

end Properties

namespace Operation

/-- A measure below zero. -/
def checkMeasure (what : String) (value : Int32) (path : Path) : List Finding :=
  if value < 0 then
    [.error path.text .modifierValueOutOfRange
      (what ++ " must be >= 0, got " ++ toString value.toInt)]
  else []

/-- The first corner radius below zero. -/
def checkShape (shape : Shape) (path : Path) : List Finding :=
  match shape with
  | .roundedCorner radii =>
    match radii.resolved.find? fun r => decide (r < 0) with
    | none => []
    | some radius =>
      [.error path.text .modifierValueOutOfRange
        ("corner radius must be >= 0, got " ++ toString radius.toInt)]
  | _ => []

def check (o : Operation) (path : Path) : List Finding :=
  match o with
  | padding value => checkMeasure "Padding" value path
  | width value => checkMeasure "Width" value path
  | height value => checkMeasure "Height" value path
  | shadow elevation => checkMeasure "Shadow elevation" elevation path
  | border thickness color =>
    checkMeasure "Border width" thickness path ++ Properties.checkColor color path
  | backgroundColor color => Properties.checkColor color path
  | background color shape => Properties.checkColor color path ++ checkShape shape path
  | clip shape => checkShape shape path
  | alpha value =>
    if value.inUnitInterval then []
    else
      [.error path.text .modifierValueOutOfRange
        ("Alpha must be within [0, 1], got " ++ String.ofList (value.text .plain))]
  | _ => []

end Operation

namespace Node

def checkSelf (n : Node) (path : Path) : List Finding :=
  (match n.properties with
    | none => []
    | some p =>
      (if p.type = n.type then [] else
        [.error path.properties.text .propertiesTypeMismatch
          (n.type.name ++ " expects " ++ n.type.payloadTag ++ ", found " ++ p.tag)])
      ++ (if n.type.isLeaf && p.hasChildren then
          [.error path.text .childrenOnLeafNode (n.type.name ++ " is a leaf but holds children")]
        else [])
      ++ p.checkFields path.properties)
  ++ n.modifier.operations.zipIdx.flatMap fun (o, i) => o.check (path.operation i)

def check (n : Node) (path : Path) : List Finding :=
  n.checkSelf path
    ++ n.placedChildren.attach.flatMap fun ⟨(place, c), _⟩ => c.check (path.properties.child place)
termination_by sizeOf n
decreasing_by exact sizeOf_child_lt (mem_children_of_placed ‹_›)

def validate (n : Node) : List Finding :=
  Finding.distinct (n.check .root)

end Node

end ScreenDoc
