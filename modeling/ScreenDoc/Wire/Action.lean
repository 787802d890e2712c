import ScreenDoc.Action
import ScreenDoc.Json.Draft
import ScreenDoc.Json.Record
import ScreenDoc.Wire.Modifier

/-!
# Actions in JSON

Scripts are lists of tagged objects. The actions of a sequence are buffered with it, whichever way
the outermost action arrives.
-/

namespace ScreenDoc

namespace Action

mutual

def toJson : Action → Json
  | setState key value => Json.tagged "SetState" [("key", .string key), ("value", value.json)]
  | toggleState key => Json.tagged "ToggleState" [("key", .string key)]
  | log message => Json.tagged "Log" [("message", .string message)]
  | sequence actions => Json.tagged "Sequence" [("actions", .array (toJsonList actions))]
  | custom customType params =>
    Json.tagged "Custom" [("customType", .string customType), ("params", .object params.fields)]

def toJsonList : List Action → List Json
  | [] => []
  | action :: actions => toJson action :: toJsonList actions

end

/-- The fields of an action that is no sequence. -/
def ofFields? (tag : String) (fields : KeyMap Json) : Option Action :=
  match tag with
  | "SetState" => do
    some (setState (← fields.required "key" Json.string?)
      (← fields.required "value" fun j => some (.ofJson j)))
  | "ToggleState" => (fields.required "key" Json.string?).map toggleState
  | "Log" => (fields.required "message" Json.string?).map log
  | "Custom" => do
    some (custom (← fields.required "customType" Json.string?)
      (← fields.defaulted "params" ∅ Json.map?))
  | _ => none

/-- The tags and contents of the actions in the content of a sequence. -/
def nested? (content : Json) : Option (List (String × Json)) := do
  let fields ← content.record? (fieldsOf "Sequence")
  fields.required "actions" (Json.list? (Json.tagged? tags true))

theorem size_lt_of_nested? {content inner : Json} {parts : List (String × Json)} {tag : String}
    (h : nested? content = some parts) (hmem : (tag, inner) ∈ parts) :
    inner.size < content.size := by
  simp only [nested?, KeyMap.required, Option.bind_eq_bind, Option.bind_eq_some_iff] at h
  obtain ⟨fields, hfields, value, hvalue, h⟩ := h
  have h1 := Json.size_lt_of_field_of_record? hfields hvalue
  cases value <;> simp only [Json.list?, reduceCtorEq] at h
  rename_i items
  obtain ⟨item, hitem, htag⟩ := Json.exists_of_mem_mapM h hmem
  have h2 := Json.size_le_of_tagged? htag
  have h3 := Json.size_lt_of_mem_items hitem
  omega

/-- The action that a tag and what stands beside it give. -/
def ofContent? (tag : String) (content : Json) : Option Action :=
  if tag = "Sequence" then
    match _h : nested? content with
    | none => none
    | some parts =>
      (parts.attach.mapM fun (part : { p : String × Json // p ∈ parts }) =>
        ofContent? part.1.1 part.1.2).map sequence
  else do ofFields? tag (← content.record? (fieldsOf tag))
termination_by content.size
decreasing_by exact size_lt_of_nested? _h part.2

def ofJson? (buffered : Bool) (j : Json) : Option Action := do
  let (tag, content) ← j.tagged? tags buffered
  ofContent? tag content

def read (room : Nat) (d : Draft) : Except Failure Action := do
  let (tag, content) ← d.tagged (tags.contains ·) room
  Draft.fit (ofContent? tag content)

end Action

end ScreenDoc
