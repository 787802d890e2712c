import ScreenDoc.Binding
import ScreenDoc.Json.Printer
import ScreenDoc.Text.Quoted

/-!
# Diagnostic text

Dispatchers and binders as developers see them: nested records with every name quoted. Of the
application's own parts only the names show.
-/

namespace ScreenDoc

namespace Diagnostic

def listing (items : List String) : String :=
  "[" ++ ", ".intercalate items ++ "]"

/-- Entries by quoted key between braces. -/
def table (entries : List (String × String)) : String :=
  "\x7b" ++ ", ".intercalate (entries.map fun (key, value) => Text.quoted key ++ ": " ++ value)
    ++ "\x7d"

def record (name : String) (fields : List (String × String)) : String :=
  name ++ " \x7b " ++ ", ".intercalate (fields.map fun (field, value) => field ++ ": " ++ value)
    ++ " \x7d"

def wrapped (name value : String) : String :=
  name ++ "(" ++ value ++ ")"

mutual

def ofJson : Json → String
  | .null => "Null"
  | .bool b => wrapped "Bool" (if b then "true" else "false")
  | .number n => wrapped "Number" (Json.number n).text
  | .string s => wrapped "String" (Text.quoted s)
  | .array items => "Array " ++ listing (ofItems items)
  | .object fields => "Object " ++ table (ofFields fields)

def ofItems : List Json → List String
  | [] => []
  | item :: items => ofJson item :: ofItems items

def ofFields : List (String × Json) → List (String × String)
  | [] => []
  | (key, value) :: fields => (key, ofJson value) :: ofFields fields

end

def ofStateValue (v : StateValue) : String :=
  match v with
  | .bool _ => wrapped "Bool" v.display
  | .int _ => wrapped "Int" v.display
  | .float x => wrapped "Float" (String.ofList (x.text .diagnostic))
  | .string s => wrapped "String" (Text.quoted s)
  | .null => "Null"
  | .json value => wrapped "Json" (ofJson value.json)

def ofHandlers (customTypes : List String) : String :=
  record "HandlerRegistry" [("handlers", listing (customTypes.map Text.quoted))]

def ofMaxDepth (maxDepth : Option Nat) : String :=
  let limit := match maxDepth with
    | some n => wrapped "Some" (toString n)
    | none => "None"
  record "DispatcherOptions" [("max_depth", limit)]

def ofRegistry (cells : Cells) (states : Registry) : String :=
  let cell (id : CellId) : String :=
    record "StateHost" [("cell",
      record "RefCell" [("value", ofStateValue ((cells.get? id).getD .null))])]
  record "StateRegistry" [("hosts", table (KeyMap.mapValues cell states))]

def ofBehaviors (behaviors : KeyMap Behavior) : String :=
  record "BehaviorRegistry"
    [("behaviors", table (KeyMap.mapValues (fun _ => wrapped "Behavior" "..") behaviors))]

end Diagnostic

def Dispatcher.diagnostic (customTypes : List String) (d : Dispatcher) : String :=
  Diagnostic.record "Dispatcher"
    [("states", Diagnostic.listing ((KeyMap.keys d.states).map Text.quoted)),
      ("handlers", Diagnostic.ofHandlers customTypes),
      ("options", Diagnostic.ofMaxDepth d.maxDepth)]

/-- A binder for the application that handles these custom types. -/
def Binder.diagnostic (customTypes : List String) (cells : Cells) (b : Binder) : String :=
  Diagnostic.record "DocumentBinder"
    [("states", Diagnostic.ofRegistry cells b.states),
      ("behaviors", Diagnostic.ofBehaviors b.behaviors),
      ("handlers", Diagnostic.ofHandlers customTypes),
      ("options", Diagnostic.ofMaxDepth b.maxDepth)]

end ScreenDoc
