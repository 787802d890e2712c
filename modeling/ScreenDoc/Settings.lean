import ScreenDoc.Json.Printer
import ScreenDoc.Json.Reader

/-!
# Settings

What a user can set once for all runs. Settings are read leniently: a field that is missing or of
another type keeps its default, and a text that is not JSON gives the defaults and a reason.
-/

namespace ScreenDoc

structure Settings where
  /-- Whether fields that decoding ignores are reported. -/
  strict : Bool := false
  /-- Whether a warning fails a check. -/
  denyWarnings : Bool := false
  /-- How deep dispatches may nest. -/
  maxDepth : Option Nat := none
  deriving DecidableEq, Inhabited

namespace Settings

/-- A flag of a section, off unless it is a boolean. -/
def flag (sections : Json) (name key : String) : Bool :=
  (((sections.field? name).bind (Json.field? key)).bind Json.bool?).getD false

def limit? : Json → Option Nat
  | .number (.int n) => if 0 ≤ n ∧ n.toNat < UInt64.size then some n.toNat else none
  | _ => none

def ofJson (j : Json) : Settings where
  strict := flag j "validator" "strict"
  denyWarnings := flag j "validator" "denyWarnings"
  maxDepth := ((j.field? "dispatch").bind (Json.field? "maxDepth")).bind limit?

def toJson (s : Settings) : Json :=
  .object [
    ("validator", .object [("strict", .bool s.strict), ("denyWarnings", .bool s.denyWarnings)]),
    ("dispatch", .object [("maxDepth",
      match s.maxDepth with
      | some n => .number (.int n)
      | none => .null)])]

def ofText (text : String) : Except Failure Settings :=
  (Json.ofText text).map ofJson

end Settings

end ScreenDoc
