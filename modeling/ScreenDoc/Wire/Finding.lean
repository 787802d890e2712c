import ScreenDoc.Finding
import ScreenDoc.Json.Reader
import ScreenDoc.Json.Record

/-!
# Findings in JSON

A finding is a record of four fields, all of them required.
-/

namespace ScreenDoc.Finding

def fieldNames : List String :=
  ["path", "message", "code", "severity"]

def toJson (f : Finding) : Json :=
  .object [("path", .string f.path), ("message", .string f.message), ("code", .string f.code.name),
    ("severity", .string f.severity.name)]

structure Reading where
  path : Option String := none
  message : Option String := none
  code : Option ErrorCode := none
  severity : Option Severity := none

def readField (room : Nat) (f : Reading) (field : String) (d : Draft) : Except Failure Reading :=
  match field with
  | "path" => do .ok { f with path := some (← d.text) }
  | "message" => do .ok { f with message := some (← d.text) }
  | "code" => do .ok { f with code := some (← d.name ErrorCode.named? room) }
  | _ => do .ok { f with severity := some (← d.name Severity.named? room) }

def read (room : Nat) (d : Draft) : Except Failure Finding := do
  match ← d.record fieldNames readField {} room with
  | ⟨some path, some message, some code, some severity⟩ => .ok ⟨path, message, code, severity⟩
  | _ => Draft.mismatch

end ScreenDoc.Finding
