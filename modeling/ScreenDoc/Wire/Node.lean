import ScreenDoc.Node.Basic
import ScreenDoc.Wire.Modifier

/-!
# Nodes in JSON

A payload is read in two steps: first its own fields, with the children left as values, then the
children. That keeps the payloads free of recursion; the recursion over nodes is one function.
-/

namespace ScreenDoc

namespace Properties

/-- A slot for one child, empty if absent or `null`. -/
def childSlot (fields : KeyMap Json) (key : String) : Option Json :=
  match fields.get? key with
  | none => none
  | some .null => none
  | some value => some value

/-- A list of children, empty if absent. -/
def childItems? (fields : KeyMap Json) (key : String) : Option (List Json) :=
  match fields.get? key with
  | none => some []
  | some (.array items) => some items
  | some _ => none

def toggle? (fields : KeyMap Json) : Option ToggleProps := do
  some {
    checked := ← fields.optional "checked" Json.bool?
    stateKey := ← fields.optional "stateKey" Json.string?
    onCheckedChange := ← fields.optional "onCheckedChange" Json.string? }

/-- The payload of a type from its fields, with the children as values. -/
def ofFields? (type : NodeType) (fields : KeyMap Json) : Option (Properties Json) :=
  match type with
  | .text => do
    some (text {
      text := ← fields.optional "text" Json.string?
      fontSize := ← fields.optional "fontSize" Json.int32?
      fontWeight := ← fields.optional "fontWeight" Json.string?
      color := ← fields.optional "color" Json.string?
      maxLines := ← fields.optional "maxLines" Json.uint32? })
  | .image => do
    some (image {
      url := ← fields.optional "url" Json.string?
      contentDescription := ← fields.optional "contentDescription" Json.string?
      contentScale := ← fields.optional "contentScale" Json.string? })
  | .textField => do
    some (textField {
      value := ← fields.optional "value" Json.string?
      label := ← fields.optional "label" Json.string?
      placeholder := ← fields.optional "placeholder" Json.string?
      stateKey := ← fields.optional "stateKey" Json.string? })
  | .switch => (toggle? fields).map switch
  | .checkbox => (toggle? fields).map checkbox
  | .column => do
    some (column {
      children := ← childItems? fields "children"
      verticalArrangement := ← fields.optional "verticalArrangement" Json.string?
      horizontalAlignment := ← fields.optional "horizontalAlignment" Json.string? })
  | .row => do
    some (row {
      children := ← childItems? fields "children"
      horizontalArrangement := ← fields.optional "horizontalArrangement" Json.string?
      verticalAlignment := ← fields.optional "verticalAlignment" Json.string? })
  | .box => do
    some (box {
      children := ← childItems? fields "children"
      contentAlignment := ← fields.optional "contentAlignment" Json.string? })
  | .button => do
    some (button {
      child := childSlot fields "child"
      onClick := ← fields.optional "onClick" Json.string?
      enabled := ← fields.optional "enabled" Json.bool? })
  | .card => do
    some (card {
      child := childSlot fields "child"
      elevation := ← fields.optional "elevation" Json.int32?
      onClick := ← fields.optional "onClick" Json.string? })
  | .scaffold =>
    some (scaffold {
      topBar := childSlot fields "topBar"
      bottomBar := childSlot fields "bottomBar"
      child := childSlot fields "child" })
  | .topAppBar => do
    some (topAppBar {
      title := childSlot fields "title"
      navigationIcon := childSlot fields "navigationIcon"
      actions := ← childItems? fields "actions" })
  | .alertDialog => do
    some (alertDialog {
      title := childSlot fields "title"
      text := childSlot fields "text"
      confirmButton := childSlot fields "confirmButton"
      dismissButton := childSlot fields "dismissButton"
      onDismissRequest := ← fields.optional "onDismissRequest" Json.string? })
  | .custom => do
    some (custom {
      customType := ← fields.required "customType" Json.string?
      data := ← fields.defaulted "data" ∅ Json.map? })

/-- The fields of a payload that hold one child. -/
def slotKeys : NodeType → List String
  | .button => ["child"]
  | .card => ["child"]
  | .scaffold => ["topBar", "bottomBar", "child"]
  | .topAppBar => ["title", "navigationIcon"]
  | .alertDialog => ["title", "text", "confirmButton", "dismissButton"]
  | _ => []

/-- The fields of a payload that hold a list of children. -/
def listKeys : NodeType → List String
  | .column => ["children"]
  | .row => ["children"]
  | .box => ["children"]
  | .topAppBar => ["actions"]
  | _ => []

/-- What holds of every slot and of every item of a list, in its place, holds of the children of a
payload. -/
theorem forall_placed_of_ofFields? {P : ChildPlace × Json → Prop} {type : NodeType}
    {fields : KeyMap Json} {p : Properties Json}
    (hslot : ∀ key ∈ slotKeys type, ∀ c ∈ childSlot fields key, P (⟨key, none⟩, c))
    (hitems : ∀ key ∈ listKeys type, ∀ items, childItems? fields key = some items →
      ∀ c ∈ items, ∀ i, P (⟨key, some i⟩, c))
    (h : ofFields? type fields = some p) : ∀ placed ∈ p.placedChildren, P placed := by
  cases type <;>
    simp only [ofFields?, Option.bind_eq_bind, Option.bind_eq_some_iff,
      Option.map_eq_some_iff] at h
  case column =>
    obtain ⟨items, hi, _, -, _, -, heq⟩ := h
    cases heq
    exact forall_mem_listed (hitems _ (by decide) _ hi)
  case row =>
    obtain ⟨items, hi, _, -, _, -, heq⟩ := h
    cases heq
    exact forall_mem_listed (hitems _ (by decide) _ hi)
  case box =>
    obtain ⟨items, hi, _, -, heq⟩ := h
    cases heq
    exact forall_mem_listed (hitems _ (by decide) _ hi)
  case button =>
    obtain ⟨_, -, _, -, heq⟩ := h
    cases heq
    exact forall_mem_slot.mpr (hslot _ (by decide))
  case card =>
    obtain ⟨_, -, _, -, heq⟩ := h
    cases heq
    exact forall_mem_slot.mpr (hslot _ (by decide))
  case scaffold =>
    cases h
    simp only [placedChildren, List.forall_mem_append, forall_mem_slot]
    exact ⟨⟨hslot _ (by decide), hslot _ (by decide)⟩, hslot _ (by decide)⟩
  case topAppBar =>
    obtain ⟨items, hi, heq⟩ := h
    cases heq
    simp only [placedChildren, List.forall_mem_append, forall_mem_slot]
    exact ⟨⟨hslot _ (by decide), hslot _ (by decide)⟩,
      forall_mem_listed (hitems _ (by decide) _ hi)⟩
  case alertDialog =>
    obtain ⟨_, -, heq⟩ := h
    cases heq
    simp only [placedChildren, List.forall_mem_append, forall_mem_slot]
    exact ⟨⟨⟨hslot _ (by decide), hslot _ (by decide)⟩, hslot _ (by decide)⟩, hslot _ (by decide)⟩
  case switch =>
    obtain ⟨_, -, rfl⟩ := h
    exact List.forall_mem_nil _
  case checkbox =>
    obtain ⟨_, -, rfl⟩ := h
    exact List.forall_mem_nil _
  case text =>
    obtain ⟨_, -, _, -, _, -, _, -, _, -, heq⟩ := h
    cases heq
    exact List.forall_mem_nil _
  case image =>
    obtain ⟨_, -, _, -, _, -, heq⟩ := h
    cases heq
    exact List.forall_mem_nil _
  case textField =>
    obtain ⟨_, -, _, -, _, -, _, -, heq⟩ := h
    cases heq
    exact List.forall_mem_nil _
  case custom =>
    obtain ⟨_, -, _, -, heq⟩ := h
    cases heq
    exact List.forall_mem_nil _

theorem forall_children_of_ofFields? {P : Json → Prop} {type : NodeType} {fields : KeyMap Json}
    {p : Properties Json} (hslot : ∀ key ∈ slotKeys type, ∀ c ∈ childSlot fields key, P c)
    (hitems : ∀ key ∈ listKeys type, ∀ items, childItems? fields key = some items →
      ∀ c ∈ items, P c)
    (h : ofFields? type fields = some p) : ∀ c ∈ p.children, P c := by
  rw [← map_snd_placedChildren, List.forall_mem_map]
  exact forall_placed_of_ofFields? hslot
    (fun key hkey items hi c hc _ => hitems key hkey items hi c hc) h

/-- The payload that a tag and what stands beside it give. -/
def ofContent? (tag : String) (content : Json) : Option (Properties Json) := do
  let type ← NodeType.ofPayloadTag? tag
  ofFields? type (← content.record? type.payloadFields)

def tags : List String :=
  NodeType.payloadOrder.map NodeType.payloadTag

/-- The fields of a payload whose children are already written. -/
def fields : Properties Json → List (String × Json)
  | text p =>
    Json.optionalField "text" .string p.text
      ++ Json.optionalField "fontSize" Json.ofInt32 p.fontSize
      ++ Json.optionalField "fontWeight" .string p.fontWeight
      ++ Json.optionalField "color" .string p.color
      ++ Json.optionalField "maxLines" Json.ofUInt32 p.maxLines
  | image p =>
    Json.optionalField "url" .string p.url
      ++ Json.optionalField "contentDescription" .string p.contentDescription
      ++ Json.optionalField "contentScale" .string p.contentScale
  | textField p =>
    Json.optionalField "value" .string p.value
      ++ Json.optionalField "label" .string p.label
      ++ Json.optionalField "placeholder" .string p.placeholder
      ++ Json.optionalField "stateKey" .string p.stateKey
  | switch p => toggleFields p
  | checkbox p => toggleFields p
  | column p =>
    ("children", .array p.children)
      :: Json.optionalField "verticalArrangement" .string p.verticalArrangement
      ++ Json.optionalField "horizontalAlignment" .string p.horizontalAlignment
  | row p =>
    ("children", .array p.children)
      :: Json.optionalField "horizontalArrangement" .string p.horizontalArrangement
      ++ Json.optionalField "verticalAlignment" .string p.verticalAlignment
  | box p =>
    ("children", .array p.children)
      :: Json.optionalField "contentAlignment" .string p.contentAlignment
  | button p =>
    Json.optionalField "child" id p.child
      ++ Json.optionalField "onClick" .string p.onClick
      ++ Json.optionalField "enabled" .bool p.enabled
  | card p =>
    Json.optionalField "child" id p.child
      ++ Json.optionalField "elevation" Json.ofInt32 p.elevation
      ++ Json.optionalField "onClick" .string p.onClick
  | scaffold p =>
    Json.optionalField "topBar" id p.topBar
      ++ Json.optionalField "bottomBar" id p.bottomBar
      ++ Json.optionalField "child" id p.child
  | topAppBar p =>
    Json.optionalField "title" id p.title
      ++ Json.optionalField "navigationIcon" id p.navigationIcon
      ++ (if p.actions.isEmpty then [] else [("actions", .array p.actions)])
  | alertDialog p =>
    Json.optionalField "title" id p.title
      ++ Json.optionalField "text" id p.text
      ++ Json.optionalField "confirmButton" id p.confirmButton
      ++ Json.optionalField "dismissButton" id p.dismissButton
      ++ Json.optionalField "onDismissRequest" .string p.onDismissRequest
  | custom p =>
    ("customType", .string p.customType)
      :: (if p.data.isEmpty then [] else [("data", .object p.data.fields)])
where
  toggleFields (p : ToggleProps) : List (String × Json) :=
    Json.optionalField "checked" .bool p.checked
      ++ Json.optionalField "stateKey" .string p.stateKey
      ++ Json.optionalField "onCheckedChange" .string p.onCheckedChange

def toJson (p : Properties Json) : Json :=
  Json.tagged p.tag p.fields

theorem mem_childSlot {fields : KeyMap Json} {key : String} {c : Json}
    (h : c ∈ (childSlot fields key).toList) : fields.get? key = some c := by
  unfold childSlot at h
  split at h
  · simp at h
  · simp at h
  · rename_i value hget
    simp at h
    rw [h, hget]

theorem mem_childItems? {fields : KeyMap Json} {key : String} {items : List Json} {c : Json}
    (h : childItems? fields key = some items) (hc : c ∈ items) :
    fields.get? key = some (.array items) := by
  unfold childItems? at h
  split at h
  · cases h
    cases hc
  · rename_i hget
    cases h
    exact hget
  · cases h

theorem size_child_lt {tag : String} {content c : Json} {p : Properties Json}
    (h : ofContent? tag content = some p) (hc : c ∈ p.children) : c.size < content.size := by
  simp only [ofContent?, Option.bind_eq_bind, Option.bind_eq_some_iff] at h
  obtain ⟨type, -, fields, hrecord, hp⟩ := h
  refine forall_children_of_ofFields? (P := fun c => c.size < content.size) ?_ ?_ hp c hc
  · intro key _ c hc
    exact Json.size_lt_of_field_of_record? hrecord (mem_childSlot (Option.mem_toList.mpr hc))
  · intro key _ items hitems c hc
    exact Nat.lt_trans (Json.size_lt_of_mem_items hc)
      (Json.size_lt_of_field_of_record? hrecord (mem_childItems? hitems hc))

end Properties

namespace Node

def fieldNames : List String :=
  ["type", "properties", "composeModifier"]

def toJson (n : Node) : Json :=
  .object (("type", .string n.type.name)
    :: (match _hp : n.properties with
      | none => []
      | some p => [("properties", (p.attach.map fun ⟨c, _hc⟩ => toJson c).toJson)])
    ++ (if n.modifier.isEmpty then [] else [("composeModifier", n.modifier.toJson)]))
termination_by sizeOf n
decreasing_by exact sizeOf_child_lt (by simpa [children, _hp] using _hc)

def ofJson? (buffered : Bool) (j : Json) : Option Node :=
  match _h : j.record? fieldNames with
  | none => none
  | some fields => do
    let type ← fields.required "type" (Json.name? NodeType.named? buffered)
    let modifier ← fields.defaulted "composeModifier" {} (Modifier.ofJson? buffered)
    match _hget : fields.get? "properties" with
    | none => some { type, modifier }
    | some .null => some { type, modifier }
    | some value =>
      match _htag : value.tagged? Properties.tags buffered with
      | none => none
      | some (tag, content) =>
        match _hp : Properties.ofContent? tag content with
        | none => none
        | some p => do
          let properties ← p.attach.traverse fun ⟨c, _hc⟩ => ofJson? true c
          some { type, properties := some properties, modifier }
termination_by j.size
decreasing_by
  have h1 := Properties.size_child_lt _hp _hc
  have h2 := Json.size_le_of_tagged? _htag
  have h3 := Json.size_lt_of_field_of_record? _h _hget
  omega

structure Reading where
  type : Option NodeType := none
  properties : Option (Properties Node) := none
  modifier : Modifier := {}

/-- The payload that a tag and what stands beside it give. -/
def payload? (tag : String) (content : Json) : Option (Properties Node) := do
  let p ← Properties.ofContent? tag content
  p.traverse (ofJson? true)

def readField (room : Nat) (n : Reading) (field : String) (d : Draft) : Except Failure Reading :=
  match field with
  | "type" => do .ok { n with type := some (← d.name NodeType.named? room) }
  | "properties" => do
    let properties ← d.optional fun d => do
      let (tag, content) ← d.tagged (Properties.tags.contains ·) room
      Draft.fit (payload? tag content)
    .ok { n with properties }
  | _ => do .ok { n with modifier := ← Modifier.read room d }

def read (room : Nat) (d : Draft) : Except Failure Node := do
  let n ← d.record fieldNames readField {} room
  match n.type with
  | some type => .ok { type, properties := n.properties, modifier := n.modifier }
  | none => Draft.mismatch

end Node

end ScreenDoc
