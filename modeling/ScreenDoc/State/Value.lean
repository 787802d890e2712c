import ScreenDoc.Binary64.Decimal
import ScreenDoc.Json.Printer
import ScreenDoc.Json.Value
import ScreenDoc.Text.Numeral

/-!
# State values

What a state cell holds. A value that comes as JSON takes its most specific form: text that reads
as a boolean, an integer or a double becomes one, and only arrays and objects stay JSON.
-/

namespace ScreenDoc

inductive StateValue where
  | bool (value : Bool)
  | int (value : Int64)
  | float (value : Binary64.Extended)
  | string (value : String)
  | null
  /-- An array or object. -/
  | json (value : Json.Value)
  deriving Inhabited

namespace StateValue

/-- What a text stands for. -/
def ofContent (s : String) : StateValue :=
  if s = "true" then bool true
  else if s = "false" then bool false
  else
    match Text.int64? s with
    | some n => int n
    | none =>
      match Text.float? s with
      | some x => float x
      | none => string s

/-- The most specific form of a JSON value. -/
def ofJson : Json → StateValue
  | .null => null
  | .bool b => bool b
  | .number (.int n) =>
    if Int64.minValue.toInt ≤ n ∧ n ≤ Int64.maxValue.toInt then int (Int64.ofInt n)
    else float (.ofRatio (n < 0) n.natAbs 1)
  | .number (.float x) => float (.finite x)
  | .string s => ofContent s
  | .array items => json (.ofJson (.array items))
  | .object fields => json (.ofJson (.object fields))

def toJson : StateValue → Json
  | bool b => .bool b
  | int n => .number (.int n.toInt)
  | float x => .ofExtended x
  | string s => .string s
  | null => .null
  | json value => value.json

/-- The name of the form, for messages. -/
def typeName : StateValue → String
  | bool _ => "Boolean"
  | int _ => "Integer"
  | float _ => "Float"
  | string _ => "String"
  | null => "Null"
  | json _ => "Json"

def asBool? : StateValue → Option Bool
  | bool b => some b
  | _ => none

/-- The value as a reader sees it. -/
def display : StateValue → String
  | bool b => if b then "true" else "false"
  | int n => String.ofList (Json.integerText n.toInt)
  | float x => String.ofList (x.text .plain)
  | string s => s
  | null => "null"
  | json value => value.json.text

end StateValue

end ScreenDoc
