import ScreenDoc.Document
import ScreenDoc.Validate.Tags

/-!
# Unrecognized fields

Fields that decoding passes over, found by walking the value along what is decoded: the
sections of a document, nodes, modifiers with their shapes, payloads, and scripts.
-/

namespace ScreenDoc.Json

/-! ## Known fields

The tables stand on their own, beside the readers that take the same fields. `type` is in none but
the one of nodes. -/

def nodeFields : List String :=
  ["type", "properties", "composeModifier"]

def modifierFields : List String :=
  ["operations"]

def documentFields : List String :=
  ["initialState", "actions", "root"]

/-- The fields of an operation, if there is one with this tag. -/
def operationFields? (tag : String) : Option (List String) :=
  match tag with
  | "Padding" | "Width" | "Height" | "Alpha" => some ["value"]
  | "FillMaxSize" | "FillMaxWidth" | "FillMaxHeight" => some []
  | "BackgroundColor" => some ["color"]
  | "Border" => some ["width", "color"]
  | "Shadow" => some ["elevation"]
  | "Clip" => some ["shape"]
  | "Background" => some ["color", "shape"]
  | "Rotate" => some ["degrees"]
  | _ => none

/-- The fields of a shape, if there is a shape with this tag. -/
def shapeFields? (tag : String) : Option (List String) :=
  match tag with
  | "Rectangle" | "Circle" => some []
  | "RoundedCorner" => some ["radius", "topStart", "topEnd", "bottomEnd", "bottomStart"]
  | _ => none

/-- The fields of an action, if there is one with this tag. -/
def actionFields? (tag : String) : Option (List String) :=
  match tag with
  | "SetState" => some ["key", "value"]
  | "ToggleState" => some ["key"]
  | "Log" => some ["message"]
  | "Sequence" => some ["actions"]
  | "Custom" => some ["customType", "params"]
  | _ => none

/-- The fields of a payload, if there is one with this tag. -/
def payloadFields? (tag : String) : Option (List String) :=
  match tag with
  | "TextProps" => some ["text", "fontSize", "fontWeight", "color", "maxLines"]
  | "ImageProps" => some ["url", "contentDescription", "contentScale"]
  | "TextFieldProps" => some ["value", "label", "placeholder", "stateKey"]
  | "SwitchProps" | "CheckboxProps" => some ["checked", "stateKey", "onCheckedChange"]
  | "ColumnProps" => some ["children", "verticalArrangement", "horizontalAlignment"]
  | "RowProps" => some ["children", "horizontalArrangement", "verticalAlignment"]
  | "BoxProps" => some ["children", "contentAlignment"]
  | "ButtonProps" => some ["child", "onClick", "enabled"]
  | "CardProps" => some ["child", "elevation", "onClick"]
  | "ScaffoldProps" => some ["topBar", "bottomBar", "child"]
  | "TopAppBarProps" => some ["title", "navigationIcon", "actions"]
  | "AlertDialogProps" =>
    some ["title", "text", "confirmButton", "dismissButton", "onDismissRequest"]
  | "CustomProps" => some ["customType", "data"]
  | _ => none

/-! ## Unknown fields -/

/-- A warning for each key that is neither `type` nor known; `place` is the path of a key. -/
def unknownKeys (fields : KeyMap Json) (known : List String) (place : String → Path) :
    List Finding :=
  (fields.keys.filter fun key => !(key == "type" || known.contains key)).map fun key =>
    .warning (place key).text .unrecognizedProperties ("unrecognized field '" ++ key ++ "'")

/-- The keys of a tagged object that its tag does not know; `fieldsOf?` knows the tags. -/
def unknownTagged (fieldsOf? : String → Option (List String)) (j : Json) (path : Path) :
    List Finding :=
  match j.fields?, j.typeName?.bind fieldsOf? with
  | some fields, some known => unknownKeys fields known path.field
  | _, _ => []

def unknownInOperation (j : Json) (path : Path) : List Finding :=
  if (j.typeName?.bind operationFields?).isSome then
    unknownTagged operationFields? j path
      ++ (match j.field? "shape" with
        | some shape => unknownTagged shapeFields? shape (path.field "shape")
        | none => [])
  else []

def unknownInModifier (j : Json) (path : Path) : List Finding :=
  match j.fields? with
  | some fields =>
    unknownKeys fields modifierFields path.field
      ++ (((j.field? "operations").bind items?).getD []).zipIdx.flatMap fun (o, i) =>
        unknownInOperation o ((path.field "operations").item i)
  | none => []

/-- What a payload's tag knows, if it has a known tag. -/
def knownFields? (payload : KeyMap Json) : Option (List String) :=
  ((object payload).typeName?).bind payloadFields?

/-- The children under child keys that the payload's tag knows. -/
def decodedChildNodes (j : Json) : List (ChildPlace × Json) :=
  match j.payload? with
  | none => []
  | some payload =>
    match knownFields? payload with
    | none => []
    | some known => underChildKeys (payload.filter fun field => known.contains field.1)

theorem size_lt_of_decodedChildNodes {j : Json} {place : ChildPlace} {c : Json}
    (h : (place, c) ∈ j.decodedChildNodes) : c.size < j.size := by
  unfold decodedChildNodes at h
  split at h
  · cases h
  · rename_i payload hp
    split at h
    · cases h
    · have h1 := size_lt_of_underChildKeys h
      have h2 := size_lt_of_payload? hp
      have h3 := sizeFields_filter_le (fun field => (by assumption : List String).contains field.1)
        payload
      simp only [size] at h1 h2
      omega

def unknownInNode (j : Json) (path : Path) : List Finding :=
  match j.fields? with
  | none => []
  | some fields =>
    unknownKeys fields nodeFields path.field
      ++ (match j.field? "composeModifier" with
        | some modifier => unknownInModifier modifier path.modifier
        | none => [])
      ++ (match j.payload? with
        | some payload => unknownTagged payloadFields? (object payload) path.properties
        | none => [])

def unknownInTree (j : Json) (path : Path) : List Finding :=
  j.unknownInNode path
    ++ j.decodedChildNodes.attach.flatMap fun ⟨(place, c), _⟩ =>
      c.unknownInTree (path.properties.child place)
termination_by j.size
decreasing_by exact size_lt_of_decodedChildNodes ‹_›

def nestedActions (j : Json) : List Json :=
  if (j.typeName?.bind actionFields?).isSome then
    ((j.field? "actions").bind items?).getD []
  else []

theorem size_lt_of_nestedActions {j c : Json} (h : c ∈ j.nestedActions) : c.size < j.size := by
  unfold nestedActions at h
  split at h
  · cases hf : j.field? "actions" with
    | none => simp [hf] at h
    | some value =>
      cases value <;> simp [hf, items?] at h
      have h1 := size_lt_of_field? hf
      have h2 := size_lt_of_mem_items h
      omega
  · cases h

def unknownInAction (j : Json) (path : Path) : List Finding :=
  unknownTagged actionFields? j path
    ++ j.nestedActions.attach.zipIdx.flatMap fun (⟨c, _⟩, i) =>
      c.unknownInAction ((path.field "actions").item i)
termination_by j.size
decreasing_by exact size_lt_of_nestedActions ‹_›

def unknownInDocument (j : Json) : List Finding :=
  match j.fields? with
  | none => []
  | some fields =>
    unknownKeys fields documentFields .top
      ++ (((j.field? "actions").bind fields?).getD []).flatMap fun (name, script) =>
        (script.items?.getD []).zipIdx.flatMap fun (action, i) =>
          unknownInAction action (((Path.top "actions").field name).item i)

end ScreenDoc.Json
