import ScreenDoc.Json.Draft
import ScreenDoc.Json.Record
import ScreenDoc.Modifier

/-!
# Modifiers in JSON

How shapes, operations and modifiers are written, how they are taken from a value, and how a
modifier is read from a text. `ofContent?` takes what a tag has beside it.
-/

namespace ScreenDoc

namespace CornerRadii

def fields (r : CornerRadii) : List (String × Json) :=
  Json.optionalField "radius" Json.ofInt32 r.radius
    ++ Json.optionalField "topStart" Json.ofInt32 r.topStart
    ++ Json.optionalField "topEnd" Json.ofInt32 r.topEnd
    ++ Json.optionalField "bottomEnd" Json.ofInt32 r.bottomEnd
    ++ Json.optionalField "bottomStart" Json.ofInt32 r.bottomStart

def ofContent? (content : Json) : Option CornerRadii := do
  let fields ← content.record? (Shape.fieldsOf "RoundedCorner")
  some {
    radius := ← fields.optional "radius" Json.int32?
    topStart := ← fields.optional "topStart" Json.int32?
    topEnd := ← fields.optional "topEnd" Json.int32?
    bottomEnd := ← fields.optional "bottomEnd" Json.int32?
    bottomStart := ← fields.optional "bottomStart" Json.int32? }

end CornerRadii

namespace Shape

def toJson : Shape → Json
  | rectangle => Json.tagged "Rectangle" []
  | circle => Json.tagged "Circle" []
  | roundedCorner radii => Json.tagged "RoundedCorner" radii.fields

/-- A tag without fields takes any object beside it, but no items. -/
def bare {α : Type} (content : Json) (value : α) : Option α :=
  if content.isEmptyContent then some value else none

def ofContent? (tag : String) (content : Json) : Option Shape :=
  match tag with
  | "Rectangle" => bare content rectangle
  | "Circle" => bare content circle
  | "RoundedCorner" => (CornerRadii.ofContent? content).map roundedCorner
  | _ => none

/-- Shapes stand only inside operations, so they are always buffered. -/
def ofJson? (j : Json) : Option Shape := do
  let (tag, content) ← j.tagged? tags true
  ofContent? tag content

end Shape

namespace Operation

def fieldsOf (tag : String) : List String :=
  match tag with
  | "Padding" | "Width" | "Height" | "Alpha" => ["value"]
  | "BackgroundColor" => ["color"]
  | "Border" => ["width", "color"]
  | "Shadow" => ["elevation"]
  | "Clip" => ["shape"]
  | "Background" => ["color", "shape"]
  | "Rotate" => ["degrees"]
  | _ => []

def fields : Operation → List (String × Json)
  | padding value => [("value", Json.ofInt32 value)]
  | fillMaxSize => []
  | fillMaxWidth => []
  | fillMaxHeight => []
  | width value => [("value", Json.ofInt32 value)]
  | height value => [("value", Json.ofInt32 value)]
  | backgroundColor color => [("color", .string color)]
  | border thickness color => [("width", Json.ofInt32 thickness), ("color", .string color)]
  | shadow elevation => [("elevation", Json.ofInt32 elevation)]
  | clip shape => [("shape", shape.toJson)]
  | background color shape => [("color", .string color), ("shape", shape.toJson)]
  | alpha value => [("value", Json.ofExtended value)]
  | rotate degrees => [("degrees", Json.ofExtended degrees)]

def toJson (o : Operation) : Json :=
  Json.tagged o.tag o.fields

/-- The operation that the fields beside a tag give. -/
def ofFields? (tag : String) (fields : KeyMap Json) : Option Operation :=
  match tag with
  | "Padding" => (fields.required "value" Json.int32?).map padding
  | "Width" => (fields.required "value" Json.int32?).map width
  | "Height" => (fields.required "value" Json.int32?).map height
  | "BackgroundColor" => (fields.required "color" Json.string?).map backgroundColor
  | "Border" => do
    some (border (← fields.required "width" Json.int32?) (← fields.required "color" Json.string?))
  | "Shadow" => (fields.required "elevation" Json.int32?).map shadow
  | "Clip" => (fields.required "shape" Shape.ofJson?).map clip
  | "Background" => do
    some (background (← fields.required "color" Json.string?)
      (← fields.required "shape" Shape.ofJson?))
  | "Alpha" => (fields.required "value" Json.extended?).map alpha
  | "Rotate" => (fields.required "degrees" Json.extended?).map rotate
  | _ => none

def ofContent? (tag : String) (content : Json) : Option Operation :=
  match tag with
  | "FillMaxSize" => Shape.bare content fillMaxSize
  | "FillMaxWidth" => Shape.bare content fillMaxWidth
  | "FillMaxHeight" => Shape.bare content fillMaxHeight
  | tag => do ofFields? tag (← content.record? (fieldsOf tag))

def ofJson? (buffered : Bool) (j : Json) : Option Operation := do
  let (tag, content) ← j.tagged? tags buffered
  ofContent? tag content

end Operation

/-- What a reader makes of a value that was buffered: it fits or it does not. -/
def Draft.fit {α : Type} : Option α → Except Failure α
  | some a => .ok a
  | none => mismatch

def Operation.read (room : Nat) (d : Draft) : Except Failure Operation := do
  let (tag, content) ← d.tagged Operation.isKnownTag room
  Draft.fit (ofContent? tag content)

namespace Modifier

def fieldNames : List String :=
  ["operations"]

def toJson (m : Modifier) : Json :=
  .object [("operations", .array (m.operations.map Operation.toJson))]

def ofJson? (buffered : Bool) (j : Json) : Option Modifier := do
  let fields ← j.record? fieldNames
  some ⟨← fields.defaulted "operations" [] (Json.list? (Operation.ofJson? buffered))⟩

def read : Nat → Draft → Except Failure Modifier :=
  Draft.record fieldNames
    (fun room _ _ d => do .ok ⟨← Draft.list Operation.read room d⟩) {}

end Modifier

end ScreenDoc
