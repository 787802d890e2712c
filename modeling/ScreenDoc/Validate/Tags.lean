import ScreenDoc.Finding
import ScreenDoc.Modifier
import ScreenDoc.Json.Basic
import ScreenDoc.Validate.Path
import ScreenDoc.Validate.Rules
import ScreenDoc.Wire.Node

/-!
# Checks on values

What can be said of a tree before it is decoded, when unknown fields are still there: tags that
name nothing, leaves that carry children, and the node to blame when decoding fails. The children
of a value are what stands under a child key of its payload, whatever the payload is.
-/

namespace ScreenDoc.Json

/-- The objects and items under the child keys, each with its place. -/
def underChildKeys (fields : KeyMap Json) : List (ChildPlace × Json) :=
  Rules.childKeys.flatMap fun key =>
    match fields.get? key with
    | some (object child) => [(⟨key, none⟩, object child)]
    | some (array items) => items.zipIdx.map fun (item, i) => (⟨key, some i⟩, item)
    | _ => []

/-- The payload of a node, if it is an object. -/
def payload? (j : Json) : Option (KeyMap Json) :=
  (j.field? "properties").bind fields?

/-- The values that stand as children in the payload of a node. -/
def childNodes (j : Json) : List (ChildPlace × Json) :=
  match j.payload? with
  | some fields => underChildKeys fields
  | none => []

theorem size_lt_of_underChildKeys {fields : KeyMap Json} {place : ChildPlace} {c : Json}
    (h : (place, c) ∈ underChildKeys fields) : c.size < (object fields).size := by
  simp only [underChildKeys, List.mem_flatMap] at h
  obtain ⟨key, -, h⟩ := h
  split at h
  · rename_i hget
    simp at h
    rw [h.2]
    exact size_lt_of_mem_fields (KeyMap.mem_of_get? hget)
  · rename_i items hget
    simp only [List.mem_map] at h
    obtain ⟨⟨item, i⟩, hitem, h⟩ := h
    cases h
    have h1 : item.size < (array items).size :=
      size_lt_of_mem_items (List.fst_mem_of_mem_zipIdx hitem)
    have h2 := size_lt_of_mem_fields (KeyMap.mem_of_get? hget)
    exact Nat.lt_trans h1 h2
  · cases h

theorem size_lt_of_payload? {j : Json} {fields : KeyMap Json} (h : j.payload? = some fields) :
    (object fields).size < j.size := by
  simp only [payload?, Option.bind_eq_some_iff] at h
  obtain ⟨value, hv, h⟩ := h
  cases value <;> simp [fields?] at h
  subst h
  exact size_lt_of_field? hv

theorem size_lt_of_childNodes {j : Json} {place : ChildPlace} {c : Json}
    (h : (place, c) ∈ j.childNodes) : c.size < j.size := by
  unfold childNodes at h
  split at h
  · rename_i hp
    have h1 := size_lt_of_underChildKeys h
    have h2 := size_lt_of_payload? hp
    omega
  · cases h

/-- The items of the operation list of a node. -/
def operationItems (j : Json) : List Json :=
  (((j.field? "composeModifier").bind (field? "operations")).bind items?).getD []

def typeName? (j : Json) : Option String :=
  (j.field? "type").bind string?

def checkOperationTag (operation : Json) (path : Path) : List Finding :=
  match operation.typeName? with
  | some tag =>
    if Operation.isKnownTag tag then []
    else [.error path.text .unknownModifierOperation
      ("unknown modifier operation '" ++ tag ++ "'")]
  | none =>
    [.error path.text .unknownModifierOperation "modifier operation has no string 'type'"]

def checkOwnTags (j : Json) (path : Path) : List Finding :=
  match j with
  | object _ =>
    (match j.typeName? with
      | some tag =>
        if (NodeType.named? tag).isSome then []
        else [.error path.text .unknownComposeType ("unknown node type '" ++ tag ++ "'")]
      | none => [.error path.text .unknownComposeType "node has no string 'type'"])
    ++ j.operationItems.zipIdx.flatMap fun (o, i) => o.checkOperationTag (path.operation i)
  | _ => [.error path.text .malformedJson "expected a node object"]

def checkTags (j : Json) (path : Path) : List Finding :=
  j.checkOwnTags path
    ++ j.childNodes.attach.flatMap fun ⟨(place, c), _⟩ => c.checkTags (path.properties.child place)
termination_by j.size
decreasing_by exact size_lt_of_childNodes ‹_›

/-- Whether a value is a child or a list that holds any. -/
def holdsChild : Json → Bool
  | object _ => true
  | array items => !items.isEmpty
  | _ => false

/-- The first child key under which something stands. -/
def firstChildKey? (fields : KeyMap Json) : Option String :=
  Rules.childKeys.find? fun key => (fields.get? key).any holdsChild

/-- A leaf that carries children, in its payload or beside it. -/
def checkOwnLeaf (j : Json) (path : Path) : List Finding :=
  match j.typeName?.bind NodeType.named? with
  | some type =>
    if type.isLeaf then
      match (j.payload?.bind firstChildKey?).or (j.fields?.bind firstChildKey?) with
      | some key =>
        [.error path.text .childrenOnLeafNode
          (type.name ++ " is a leaf but carries '" ++ key ++ "'")]
      | none => []
    else []
  | none => []

/-- All leaves of a tree that carry children. -/
def checkLeaves (j : Json) (path : Path) : List Finding :=
  j.checkOwnLeaf path
    ++ j.childNodes.attach.flatMap fun ⟨(place, c), _⟩ =>
      c.checkLeaves (path.properties.child place)
termination_by j.size
decreasing_by exact size_lt_of_childNodes ‹_›

/-- Where decoding fails: the first child that does not decode, as deep as possible. -/
def blame? (j : Json) (path : Path) : Option Path :=
  if (Node.ofJson? false j).isSome then none
  else
    some ((j.childNodes.attach.findSome? fun ⟨(place, c), _⟩ =>
      c.blame? (path.properties.child place)).getD path)
termination_by j.size
decreasing_by exact size_lt_of_childNodes ‹_›

end ScreenDoc.Json
