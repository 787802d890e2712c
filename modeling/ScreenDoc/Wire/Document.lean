import ScreenDoc.DecodeError
import ScreenDoc.Document
import ScreenDoc.Json.Printer
import ScreenDoc.Json.Reader
import ScreenDoc.Wire.Action
import ScreenDoc.Wire.Node

/-!
# Documents in JSON

Texts to nodes and documents, and back. A text is read directly, or first as a JSON value, which
is how a payload of unknown kind is read.
-/

namespace ScreenDoc

namespace Document

def toJson (d : Document) : Json :=
  .object ((if d.initialState.isEmpty then []
      else [("initialState", .object d.initialState.fields)])
    ++ (if d.actions.isEmpty then [] else
      [("actions", .object (d.actions.entries.map fun (name, script) =>
        (name, .array (Action.toJsonList script))))])
    ++ [("root", d.root.toJson)])

/-- The scripts of a value. -/
def actionsOfJson? : Json → Option (SortedMap (List Action))
  | .object fields => do
    some (.ofList (← fields.mapM fun (name, script) => do
      some (name, ← script.list? (Action.ofJson? false))))
  | _ => none

def ofJson? (j : Json) : Option Document := do
  let fields ← j.record? fieldNames
  some {
    initialState := ← fields.defaulted "initialState" ∅ Json.map?
    actions := ← fields.defaulted "actions" ∅ actionsOfJson?
    root := ← fields.required "root" (Node.ofJson? false) }

structure Reading where
  initialState : Json.Map := ∅
  actions : SortedMap (List Action) := ∅
  root : Option Node := none

def readField (room : Nat) (d : Reading) (field : String) (value : Draft) :
    Except Failure Reading :=
  match field with
  | "initialState" => do
    .ok { d with initialState := .ofFields (← value.entries Draft.value room) }
  | "actions" => do
    .ok { d with actions := .ofList (← value.entries (Draft.list Action.read) room) }
  | _ => do .ok { d with root := some (← Node.read room value) }

def read (room : Nat) (value : Draft) : Except Failure Document := do
  let d ← value.record fieldNames readField {} room
  match d.root with
  | some root => .ok { initialState := d.initialState, actions := d.actions, root }
  | none => Draft.mismatch

def decode (text : String) : Except DecodeError Document :=
  DecodeError.guard text (Draft.readText (read Draft.roomAtTop))

def encode (d : Document) : String :=
  d.toJson.text

end Document

namespace Node

def decode (text : String) : Except DecodeError Node :=
  DecodeError.guard text (Draft.readText (read Draft.roomAtTop))

def encode (n : Node) : String :=
  n.toJson.text

end Node

namespace Payload

def ofJson? (j : Json) : Option Payload :=
  if j.isDocument then (Document.ofJson? j).map document else (Node.ofJson? false j).map node

def decode (text : String) : Except DecodeError Payload :=
  DecodeError.guard text fun text => do Draft.fit (ofJson? (← Json.ofText text))

end Payload

end ScreenDoc
